import SimulationKey.Kit.Interrupted
import SimulationKey.Worker.Dispatcher
import SimulationKey.Worker.Timeseries

/-!
# The series file between two processes

`_run_simulation_subprocess` and `to_temp_file`, operation by operation, in the
solver process that `_run_simulation` waits for. The process creates the file and
owns it until its result is received; from then on the handler does.

* **the solver process** — it may be killed between any two operations
  (`Prog.Visits`), and its result may fail to be sent; the handler is answered
  what it sends, or else that the pool is broken;
* **the rest of the machine** — other processes write and delete files of their
  own, with other names (`Elsewhere`).
-/

namespace SimulationKey

open Kit Kit.Prog

/-! ## The temporary directory -/

/-- Files are numbered as they are created. -/
structure TempDir where
  content : Nat → Option (List UInt8)
  next : Nat

namespace TempDir

variable (dir : TempDir)

def create : TempDir :=
  { content := Function.update dir.content dir.next (some [])
    next := dir.next + 1 }

def append (path : Nat) (bytes : List UInt8) : TempDir :=
  { dir with
    content := Function.update dir.content path ((dir.content path).map (· ++ bytes)) }

def delete (path : Nat) : TempDir :=
  { dir with content := Function.update dir.content path none }

/-- What others may do to the directory. -/
structure Elsewhere (own : Nat → Prop) (dir' : TempDir) : Prop where
  kept : ∀ path, own path → dir'.content path = dir.content path
  next : dir.next ≤ dir'.next

end TempDir

/-! ## The solver process -/

inductive SolverOp (F : Type) where
  | simulate (key : SimulationKeyInput F) (raw : SimulationRawData F)
  | mkstemp
  | fdopen (path : Nat)
  | write (path : Nat) (bytes : List UInt8)
  | close (path : Nat)
  | solved (result : KeySimResult F) (path : Nat)
  | remove (path : Nat)
  | send (outcome : Except Exn (KeySimResult F × Nat))

variable {F B L : Type}

@[reducible] def SolverOp.Resp : SolverOp F → Type
  | simulate .. => KeySimResult F
  | mkstemp => Nat
  | solved .. => KeySimResult F × Nat
  | fdopen _ | write .. | close _ | remove _ | send _ => Unit

abbrev SolverAct (F α : Type) : Type := Prog (SolverOp F) SolverOp.Resp Exn α

abbrev inSolver (o : SolverOp F) : SolverAct F o.Resp := Prog.perform o

section Program

variable [PyFloat F] (floatRepr : F → List Char)

/-- The writes of `write_json`. -/
def writeAll (path : Nat) : List (List UInt8) → SolverAct F Unit
  | [] => pure ()
  | piece :: rest => do
    inSolver (.write path piece)
    writeAll path rest

/-- `except BaseException: remove(path); raise`. -/
def removeAndRaise {α : Type} (path : Nat) (e : Exn) : SolverAct F α := do
  inSolver (.remove path)
  raise e

/-- `to_temp_file`. -/
def toTempFile (result : KeySimResult F) : SolverAct F Nat := do
  let path ← inSolver .mkstemp
  (do
    inSolver (.fdopen path)
    (writeAll path (writeJson floatRepr result)).ensuring (inSolver (.close path))
    : SolverAct F Unit).tryCatch (removeAndRaise path)
  pure path

/-- `_run_simulation_subprocess`. -/
def runSimulationSubprocess (key : SimulationKeyInput F) (raw : SimulationRawData F) :
    SolverAct F (KeySimResult F × Nat) := do
  let result ← inSolver (.simulate key raw)
  let path ← toTempFile floatRepr result
  (inSolver (.solved result path)).tryCatch (removeAndRaise path)

/-- What the pool has a process do: the result, or else an exception, is sent. -/
def poolProcess (key : SimulationKeyInput F) (raw : SimulationRawData F) : SolverAct F Unit :=
  (runSimulationSubprocess floatRepr key raw).andThen fun
    | .ok solved => (inSolver (.send (.ok solved))).tryCatch fun e => inSolver (.send (.error e))
    | .error e => inSolver (.send (.error e))

end Program

/-- What a solver process has done: the file it created, whether it deleted it
again, and what was received from it. -/
structure SolverProcess (F : Type) where
  created : Option Nat
  removed : Bool
  sendFailed : Bool
  sent : Option (Except Exn (KeySimResult F × Nat))

def SolverProcess.fresh : SolverProcess F := ⟨none, false, false, none⟩

/-- It created the file, did not delete it, and nobody was told where it is. -/
def SolverProcess.Abandons (p : SolverProcess F) : Prop :=
  p.created ≠ none ∧ p.removed = false ∧ (p.sent = none ∨ p.sendFailed = true)

structure SolverState (F : Type) where
  dir : TempDir
  self : SolverProcess F

/-- An operation of the solver process. Any may raise, but deleting a file. -/
def solverEffect [PyFloat F] : (o : SolverOp F) → SolverState F → Except Exn o.Resp →
    SolverState F → Prop
  | .simulate key raw, s, r, s' => s' = s ∧
      (r = (runSimulation key raw.C raw.VA raw.consumerNames).mapError .simulationInput ∨
        ∃ text, r = .error (.other text))
  | .mkstemp, s, r, s' =>
      r = .ok s.dir.next ∧ s' = { dir := s.dir.create, self :=
        { s.self with created := some s.dir.next, removed := false } } ∨
      s' = s ∧ ∃ text, r = .error (.other text)
  | .fdopen _, s, r, s' | .close _, s, r, s' =>
      s' = s ∧ (r = .ok () ∨ ∃ text, r = .error (.other text))
  | .write path bytes, s, r, s' =>
      r = .ok () ∧ s' = { s with dir := s.dir.append path bytes } ∨
      ∃ text part, r = .error (.other text) ∧ s' = { s with dir := s.dir.append path part }
  | .solved result path, s, r, s' =>
      s' = s ∧ (r = .ok (withoutSeries result, path) ∨ ∃ text, r = .error (.other text))
  | .remove path, s, r, s' =>
      r = .ok () ∧ s' = { dir := s.dir.delete path, self :=
        { s.self with removed := s.self.removed || s.self.created = some path } }
  | .send outcome, s, r, s' =>
      r = .ok () ∧ s' = { s with self := { s.self with sent := some outcome } } ∨
      ∃ text, r = .error (.other text) ∧
        s' = { s with self := { s.self with sendFailed := true } }

def solverMay [PyFloat F] (o : SolverOp F) (s : SolverState F) (r : Except Exn o.Resp)
    (s' : SolverState F) : Prop :=
  ∃ dir, s.dir.Elsewhere (fun path => s.self.created = some path) dir ∧
    solverEffect o { s with dir := dir } r s'

/-! ## The delivery -/

/-- A delivery's view: the directory, and the solver processes that worked for
it, as they ended. -/
structure Delivery (F : Type) where
  dir : TempDir
  solvers : List (SolverProcess F)

/-- A file that a solver process of the delivery created. -/
def Delivery.Owns (d : Delivery F) (path : Nat) : Prop :=
  ∃ p ∈ d.solvers, p.created = some path

/-- No such file exists. -/
def Delivery.Tidy (d : Delivery F) : Prop := ∀ path, d.Owns path → d.dir.content path = none

section Handler

variable [PyFloat F] (floatRepr : F → List Char)

/-- A solve: by a process of the pool, which may break before it receives what
the process sent, wherever that stopped; without a pool, in this process; or not
at all, if it cannot be submitted. -/
inductive Solves (key : SimulationKeyInput F) (raw : SimulationRawData F) (d : Delivery F) :
    Except Exn (KeySimResult F × Nat) → Delivery F → Prop where
  | pool {s : SolverState F} {r : Except Exn (KeySimResult F × Nat)}
      (run : (poolProcess floatRepr key raw).Visits solverMay ⟨d.dir, .fresh⟩ s)
      (answer : s.self.sent = some r) : Solves key raw d r ⟨s.dir, d.solvers ++ [s.self]⟩
  | broken {s : SolverState F} (text : String)
      (run : (poolProcess floatRepr key raw).Visits solverMay ⟨d.dir, .fresh⟩ s) :
      Solves key raw d (.error (.brokenExecutor text))
        ⟨s.dir, d.solvers ++ [{ s.self with sent := none }]⟩
  | inline {s : SolverState F} {r : Except Exn (KeySimResult F × Nat)}
      (run : (runSimulationSubprocess floatRepr key raw).Ends solverMay ⟨d.dir, .fresh⟩ r s) :
      Solves key raw d r ⟨s.dir, d.solvers ++ [{ s.self with sent := some r }]⟩
  | refused (text : String) : Solves key raw d (.error (.other text)) d

/-- An operation of the handler. Only two of them are about series files; the
others may be answered anything here. -/
def deliveryEffect : (o : Op F B) → Delivery F → Except Exn o.Resp → Delivery F → Prop
  | .runSimulation key raw, d, r, d' => Solves floatRepr key raw d r d'
  | .remove path, d, r, d' => r = .ok () ∧ d' = { d with dir := d.dir.delete path }
  | _, d, _, d' => d' = d

def deliveryMay (o : Op F B) (d : Delivery F) (r : Except Exn o.Resp) (d' : Delivery F) : Prop :=
  ∃ dir, d.dir.Elsewhere d.Owns dir ∧ deliveryEffect floatRepr o { d with dir := dir } r d'

end Handler

end SimulationKey
