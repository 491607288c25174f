import SimulationKey.Worker.SolverPool

/-!
# The pool carries out the solves

* `worker_refines_service` — however the handlers wait for slots and futures, and
  whenever processes complete, die or are shut down, a run of the worker is one of
  the service in which a solve is a single operation;
* `pool_replaced` — the pools that were replaced are broken and have nothing left to
  do, and a solve ends as a crash exactly when a process died before its end.
-/

namespace SimulationKey.Theorems.SolverPool

open Kit Kit.Prog

variable {F B L : Type}

/-! ## Operations -/

section Operations

variable [PyFloat F] {choice : Choice} {t : Nat} {w w' : Worker F B}

/-- A pool takes a solve up: the one in use, or the one that replaces it. -/
inductive Accepts (s : SolverPool) (future : Nat) : SolverPool → Prop where
  | grows (works : s.pool.broken = false) (opened : s.pool.shut = false) :
      Accepts s future
        { s with pool := { s.pool with pending := s.pool.pending ++ [future] } }
  | replaces (broken : s.pool.broken = true) :
      Accepts s future
        { pool := { ProcessPool.fresh with pending := [future] }
          replaced := s.pool :: s.replaced }

/-- A broken pool is replaced, so that only a shutdown refuses a solve. -/
theorem submit_cases (s : SolverPool) (future : Nat) :
    (∃ pool, s.submit future = (.ok (), pool) ∧ Accepts s future pool) ∨
      s.submit future = (.error afterShutdown, s) ∧ s.pool.shut = true := by
  obtain ⟨⟨broken, shut, pending⟩, replaced⟩ := s
  cases broken with
  | true => exact Or.inl ⟨_, rfl, .replaces rfl⟩
  | false =>
      cases shut with
      | true => exact Or.inr ⟨rfl, rfl⟩
      | false => exact Or.inl ⟨_, rfl, .grows rfl rfl⟩

/-- A solve as it is submitted. -/
def submitted (t : Nat) (key : SimulationKeyInput F) (raw : SimulationRawData F) : SolveFuture F :=
  { task := t, key := key, raw := raw, awaited := true, outcome := none }

theorem solver_submit_cases (s : Solver F) (t : Nat) (key : SimulationKeyInput F)
    (raw : SimulationRawData F) :
    (∃ pool, Accepts s.pool s.futures.length pool ∧ s.submit t key raw =
        (.ok s.futures.length,
          { s with
            pool := pool
            futures := s.futures ++ [submitted t key raw] })) ∨
      s.submit t key raw = (.error afterShutdown, s) ∧ s.pool.pool.shut = true := by
  unfold Solver.submit
  rcases submit_cases s.pool s.futures.length with ⟨pool, hsubmit, haccepts⟩ | ⟨hsubmit, hshut⟩
  · rw [hsubmit]
    exact Or.inl ⟨pool, haccepts, rfl⟩
  · rw [hsubmit]
    exact Or.inr ⟨rfl, hshut⟩

theorem exec_acquire {r : Except Exn Unit} (h : workerExec choice t .acquire w = some (r, w')) :
    (r = .ok () ∧ w.solver.value ≠ 0 ∧
      w' =
        { w with
          solver :=
            { w.solver with
              value := w.solver.value - 1
              holders := t :: w.solver.holders } }) ∨
      r = .error .cancelled ∧ w' = w := by
  simp only [workerExec] at h
  split at h
  · split_ifs at h with hvalue
    obtain ⟨rfl, rfl⟩ := Prod.mk.inj (Option.some.inj h)
    exact Or.inl ⟨rfl, hvalue, rfl⟩
  · obtain ⟨rfl, rfl⟩ := Prod.mk.inj (Option.some.inj h)
    exact Or.inr ⟨rfl, rfl⟩
  · cases h

theorem exec_submit {key : SimulationKeyInput F} {raw : SimulationRawData F} {r : Except Exn Nat}
    (h : workerExec choice t (.submit key raw) w = some (r, w')) :
    (∃ pool, Accepts w.solver.pool w.solver.futures.length pool ∧
      r = .ok w.solver.futures.length ∧
      w' =
        { w with
          solver :=
            { w.solver with
              pool := pool
              futures := w.solver.futures ++ [submitted t key raw] } }) ∨
      ∃ text, r = .error (.other text) ∧ w' = w := by
  simp only [workerExec] at h
  split at h
  · rcases solver_submit_cases w.solver t key raw with ⟨pool, haccepts, hsubmit⟩ | ⟨hsubmit, -⟩
    · rw [hsubmit] at h
      obtain ⟨rfl, rfl⟩ := Prod.mk.inj (Option.some.inj h)
      exact Or.inl ⟨pool, haccepts, rfl, rfl⟩
    · rw [hsubmit] at h
      obtain ⟨rfl, rfl⟩ := Prod.mk.inj (Option.some.inj h)
      exact Or.inr ⟨_, rfl, rfl⟩
  · obtain ⟨rfl, rfl⟩ := Prod.mk.inj (Option.some.inj h)
    exact Or.inr ⟨_, rfl, rfl⟩
  · cases h

theorem exec_result {future : Nat} {r : Except Exn (KeySimResult F × Nat)}
    (h : workerExec choice t (.result future) w = some (r, w')) :
    (∃ result, w.solver.outcomeOf future = some (.ok result) ∧ (r, w') = w.receive result) ∨
      (∃ e, w.solver.outcomeOf future = some (.error e) ∧ r = .error e ∧ w' = w) ∨
      r = .error .cancelled ∧
        (w' = { w with solver := w.solver.abandon future } ∨
          w' = { w with solver := w.solver.cancel (· = future) }) := by
  simp only [workerExec] at h
  split at h
  · split at h
    · rename_i result houtcome
      exact Or.inl ⟨result, houtcome, (Option.some.inj h).symm⟩
    · rename_i e houtcome
      obtain ⟨rfl, rfl⟩ := Prod.mk.inj (Option.some.inj h)
      exact Or.inr (Or.inl ⟨e, houtcome, rfl, rfl⟩)
    · cases h
  · obtain ⟨rfl, rfl⟩ := Prod.mk.inj (Option.some.inj h)
    exact Or.inr (Or.inr ⟨rfl, Or.inl rfl⟩)
  · obtain ⟨rfl, rfl⟩ := Prod.mk.inj (Option.some.inj h)
    exact Or.inr (Or.inr ⟨rfl, Or.inr rfl⟩)
  · cases h

theorem exec_release {r : Except Exn Unit} (h : workerExec choice t .release w = some (r, w')) :
    r = .ok () ∧
      w' =
        { w with
          solver :=
            { w.solver with
              value := w.solver.value + 1
              holders := w.solver.holders.erase t } } := by
  simp only [workerExec] at h
  split at h
  · obtain ⟨rfl, rfl⟩ := Prod.mk.inj (Option.some.inj h)
    exact ⟨rfl, rfl⟩
  · cases h

theorem exec_other {o : Op F B} {r : Except Exn o.Resp}
    (h : workerExec choice t (.other o) w = some (r, w')) :
    exec choice t o w.service = some (r, w'.service) ∧ w'.solver = w.solver := by
  obtain ⟨x, hx, heq⟩ := Option.map_eq_some_iff.mp h
  obtain ⟨rfl, rfl⟩ := Prod.mk.inj heq
  exact ⟨hx, rfl⟩

end Operations

/-! ## A solve as one operation -/

section Refinement

variable [PyFloat F]

/-- A future keeps its input. -/
def Keeps (w w' : Worker F B) : Prop :=
  ∀ (i : Nat) (x : SolveFuture F), w.solver.futures[i]? = some x →
    ∃ x' : SolveFuture F, w'.solver.futures[i]? = some x' ∧ x'.key = x.key ∧ x'.raw = x.raw

theorem Keeps.of_eq {w w' : Worker F B} (h : w'.solver.futures = w.solver.futures) :
    Keeps w w' := by
  intro i x hx
  rw [h]
  exact ⟨x, hx, rfl, rfl⟩

theorem Keeps.of_append {w w' : Worker F B} {added : List (SolveFuture F)}
    (h : w'.solver.futures = w.solver.futures ++ added) : Keeps w w' := by
  intro i x hx
  have hlt := (List.getElem?_eq_some_iff.mp hx).1
  rw [h, List.getElem?_append_left hlt]
  exact ⟨x, hx, rfl, rfl⟩

theorem Keeps.of_complete {w w' : Worker F B} {which : Nat → Bool}
    {outcome : (key : SimulationKeyInput F) → (raw : SimulationRawData F) → Outcome key raw}
    (h : w'.solver.futures = (w.solver.complete which outcome).futures) : Keeps w w' := by
  intro i x hx
  rw [h, Solver.complete, List.getElem?_mapIdx, hx]
  refine ⟨_, rfl, ?_⟩
  split
  · exact ⟨rfl, rfl⟩
  · exact ⟨rfl, rfl⟩

theorem Keeps.of_abandon {w w' : Worker F B} {future : Nat}
    (h : w'.solver.futures = (w.solver.abandon future).futures) : Keeps w w' := by
  intro i x hx
  rw [h, Solver.abandon, List.getElem?_modify, hx]
  refine ⟨_, rfl, ?_⟩
  split
  · exact ⟨rfl, rfl⟩
  · exact ⟨rfl, rfl⟩

theorem keeps_exec {choice : Choice} {t : Nat} {o : WorkerOp F B} {w w' : Worker F B}
    {r : Except Exn o.Resp} (h : workerExec choice t o w = some (r, w')) : Keeps w w' := by
  cases o with
  | other o => exact .of_eq (by rw [(exec_other h).2])
  | acquire =>
      rcases exec_acquire h with ⟨-, -, rfl⟩ | ⟨-, rfl⟩
      · exact .of_eq rfl
      · exact .of_eq rfl
  | submit key raw =>
      rcases exec_submit h with ⟨pool, -, -, rfl⟩ | ⟨text, -, rfl⟩
      · exact .of_append rfl
      · exact .of_eq rfl
  | result future =>
      rcases exec_result h with ⟨result, -, hreceive⟩ | ⟨e, -, -, rfl⟩ | ⟨-, rfl | rfl⟩
      · obtain ⟨-, rfl⟩ := Prod.mk.inj hreceive
        exact .of_eq rfl
      · exact .of_eq rfl
      · exact .of_abandon rfl
      · exact .of_complete rfl
  | release =>
      obtain ⟨-, rfl⟩ := exec_release h
      exact .of_eq rfl

/-- What is left of an operation before its effect. -/
inductive Before (w : Worker F B) : (o : Op F B) → WorkerAct F B o.Resp → Prop where
  | whole (o : Op F B) : Before w o (carryOut o)
  | submitting (key : SimulationKeyInput F) (raw : SimulationRawData F) :
      Before w (.runSimulation key raw)
        ((inWorker (.submit key raw) >>= fun future => inWorker (.result future)).ensuring
          (inWorker .release))
  | awaiting {future : Nat} {x : SolveFuture F} (h : w.solver.futures[future]? = some x) :
      Before w (.runSimulation x.key x.raw)
        ((inWorker (.result future)).ensuring (inWorker .release))

/-- What is left of it after its effect. -/
inductive After (o : Op F B) (r : Except Exn o.Resp) : WorkerAct F B o.Resp → Prop where
  | releasing : After o r (Prog.ensuring (.ret r) (inWorker .release))
  | ended : After o r (.ret r)

omit [PyFloat F] in
theorem carryOut_cases (o : Op F B) :
    (∃ key raw, o = .runSimulation key raw) ∨ carryOut o = inWorker (.other o) := by
  cases o <;> first | exact Or.inr rfl | exact Or.inl ⟨_, _, rfl⟩

/-- A failure of the solve that the service knows. -/
theorem exec_fails {t : Nat} {key : SimulationKeyInput F} {raw : SimulationRawData F} {e : Exn}
    {w : World F B} (h : Possible key raw (.error e)) :
    ∃ choice, exec choice t (.runSimulation key raw) w = some (.error e, w) := by
  cases e with
  | simulationInput e =>
      have hrun : runSimulation key raw.C raw.VA raw.consumerNames = .error e := h
      exact ⟨.ok, by simp only [exec, answer, hrun]⟩
  | cancelled => exact ⟨.fail .cancelled, rfl⟩
  | brokenExecutor text => exact ⟨.fail (.brokenExecutor text), rfl⟩
  | other text => exact ⟨.fail (.other text), rfl⟩
  | transientError | solverCrash | objectNotFound | transientStorage | errorException =>
      exact h.elim

/-- What a future is completed with is an outcome of its own input. -/
theorem possible_of_outcomeOf {s : Solver F} {future : Nat} {x : SolveFuture F}
    (hx : s.futures[future]? = some x) {r : Except Exn (KeySimResult F)}
    (h : s.outcomeOf future = some r) : Possible x.key x.raw r := by
  unfold Solver.outcomeOf at h
  rw [hx] at h
  have h : x.answer = some r := h
  obtain ⟨outcome, -, rfl⟩ := Option.map_eq_some_iff.mp h
  exact outcome.2

theorem before_step {choice : Choice} {t : Nat} {o : Op F B} {o' : WorkerOp F B}
    {w w' : Worker F B} {r' : Except Exn o'.Resp}
    {k : Except Exn o'.Resp → WorkerAct F B o.Resp} (h : Before w o (.op o' k))
    (hexec : workerExec choice t o' w = some (r', w')) :
    (w'.service = w.service ∧ Before w' o (k r')) ∨
      ∃ choice r, exec choice t o w.service = some (r, w'.service) ∧ After o r (k r') := by
  generalize hq : Prog.op o' k = q at h
  cases h with
  | whole o =>
      rcases carryOut_cases o with ⟨key, raw, rfl⟩ | hplain
      · change Prog.op o' k = .op .acquire _ at hq
        cases hq
        rcases exec_acquire hexec with ⟨rfl, -, rfl⟩ | ⟨rfl, rfl⟩
        · exact Or.inl ⟨rfl, .submitting key raw⟩
        · exact Or.inr ⟨.fail .cancelled, .error .cancelled, rfl, .ended⟩
      · rw [hplain] at hq
        change Prog.op o' k = .op (.other o) .ret at hq
        cases hq
        exact Or.inr ⟨choice, r', (exec_other hexec).1, .ended⟩
  | submitting key raw =>
      change Prog.op o' k = .op (.submit key raw) _ at hq
      cases hq
      rcases exec_submit hexec with ⟨pool, -, rfl, rfl⟩ | ⟨text, rfl, rfl⟩
      · exact Or.inl ⟨rfl, .awaiting (x := submitted t key raw) List.getElem?_concat_length⟩
      · exact Or.inr ⟨.fail (.other text), .error (.other text), rfl, .releasing⟩
  | @awaiting future x hx =>
      change Prog.op o' k = .op (.result future) _ at hq
      cases hq
      rcases exec_result hexec with ⟨result, houtcome, hreceive⟩ | ⟨e, houtcome, rfl, rfl⟩ |
        ⟨rfl, hw⟩
      · have hrun : runSimulation x.key x.raw.C x.raw.VA x.raw.consumerNames = .ok result :=
          possible_of_outcomeOf hx houtcome
        obtain ⟨rfl, rfl⟩ := Prod.mk.inj hreceive
        refine Or.inr ⟨.ok, .ok (withoutSeries result, w.service.files.next), ?_, .releasing⟩
        simp only [exec, answer, hrun]
      · obtain ⟨choice, hfails⟩ := exec_fails (t := t) (w := w'.service)
          (possible_of_outcomeOf hx houtcome)
        exact Or.inr ⟨choice, .error e, hfails, .releasing⟩
      · have hservice : w'.service = w.service := by rcases hw with rfl | rfl <;> rfl
        exact Or.inr ⟨.fail .cancelled, .error .cancelled, by rw [hservice]; rfl, .releasing⟩

/-- The pool carries out the service's solves. -/
def carries (lib : Libraries F B L) (simulationId : Nat) :
    Carries (service lib simulationId) (worker lib simulationId) where
  view := Worker.service
  body := carryOut
  entry := id
  keeps := Keeps
  before := fun _ o q w => Before w o q
  after := fun _ => After
  start := fun _ o w => .whole o
  before_ret := by
    intro t o r w h
    generalize hq : Prog.ret r = q at h
    cases h with
    | whole o =>
        rcases carryOut_cases o with ⟨key, raw, rfl⟩ | hplain
        · cases hq
        · rw [hplain] at hq
          cases hq
    | submitting key raw => cases hq
    | awaiting hx => cases hq
  before_step := before_step
  before_keeps := by
    intro t o q w w' h hkeeps
    cases h with
    | whole o => exact .whole o
    | submitting key raw => exact .submitting key raw
    | @awaiting future x hx =>
        obtain ⟨x', hx', hkey, hraw⟩ := hkeeps future x hx
        rw [← hkey, ← hraw]
        exact .awaiting hx'
  after_ret := by
    intro t o r r' h
    generalize hq : Prog.ret r' = q at h
    cases h with
    | releasing => cases hq
    | ended =>
        cases hq
        rfl
  after_step := by
    intro t o r o' w r' w' choice k h hexec
    generalize hq : Prog.op o' k = q at h
    cases h with
    | releasing =>
        change Prog.op o' k = .op .release _ at hq
        cases hq
        obtain ⟨rfl, rfl⟩ := exec_release hexec
        exact ⟨rfl, .ended⟩
    | ended => cases hq
  exec_keeps := keeps_exec
  enter := by
    intro e w w' p' h
    obtain ⟨x, hx, heq⟩ := Option.map_eq_some_iff.mp h
    obtain ⟨rfl, rfl⟩ := Prod.mk.inj heq
    exact ⟨.of_eq rfl, x.2, hx, rfl⟩
  abort := ⟨.of_eq rfl, rfl⟩
  event := by
    intro e w
    cases e with
    | inl crm => exact ⟨.of_eq rfl, Or.inr ⟨crm, rfl⟩⟩
    | inr e =>
        refine ⟨?_, Or.inl rfl⟩
        cases e with
        | finishes future fault => exact .of_complete rfl
        | dies => exact .of_complete rfl
        | shutsDown queued => exact .of_complete rfl

/-- Every run of the worker, from any state of its pool, is a run of the service
with the same entries: it leaves the service's world the same, and a task that has
ended has the outcome it has there. -/
theorem worker_refines_service {lib : Libraries F B L} {simulationId : Nat}
    {ok : Entry F B → Prop} {w : Worker F B} {c' : System.Config (worker lib simulationId)}
    (hrun : (worker lib simulationId).Reaches ((worker lib simulationId).Enters ok)
      ⟨w, fun _ => .idle⟩ c') :
    ∃ c : State lib simulationId,
      (service lib simulationId).Reaches ((service lib simulationId).Enters ok)
        ⟨w.service, fun _ => .idle⟩ c ∧
      c.world = c'.world.service ∧
      ∀ t, (c.tasks t = .idle ↔ c'.tasks t = .idle) ∧
        ∀ r, c'.tasks t = .running (.ret r) → c.tasks t = .running (.ret r) := by
  have hstart : (carries lib simulationId).Simulates ⟨w.service, fun _ => .idle⟩
      ⟨w, fun _ => .idle⟩ := ⟨rfl, fun _ => .idle⟩
  obtain ⟨c, hreaches, hsim⟩ := Carries.reaches hstart hrun
  refine ⟨c, hreaches, hsim.world, fun t => ⟨(hsim.tasks t).idle_iff, fun r hended => ?_⟩⟩
  have htask := hsim.tasks t
  rw [hended] at htask
  exact htask.ended

end Refinement

/-- A worker with one process, and a simulation that waits for its run. -/
def smallWorker : System.Config (worker smallLib 1) :=
  { world := { service := smallWorld (some smallRow) 1 "d", solver := .start 1 }
    tasks := fun _ => .idle }

/-- The next `n` operations of a handler go through. -/
def handlerSteps (t n : Nat) : List (System.Label (worker smallLib 1)) :=
  System.steps Choice.ok t n

/-- The process dies of the first delivery's solve; the pool is replaced by the
second delivery's, which succeeds. -/
def crashed : List (System.Label (worker smallLib 1)) :=
  .enter 1 (Entry.deliver (some 1)) ::
    (handlerSteps 1 7 ++ [.event (.inr .dies)] ++ handlerSteps 1 4 ++
      [.enter 2 (Entry.deliver (some 2))] ++ handlerSteps 2 7 ++
      [.event (.inr (.finishes 1 none))] ++ handlerSteps 2 16)

def isDelivery : Entry ℚ Unit → Bool
  | .deliver _ => true
  | _ => false

def deliveryOnly (_ : System.Config (worker smallLib 1)) :
    System.Label (worker smallLib 1) → Bool
  | .enter _ e => isDelivery e
  | _ => true

theorem worker_refines_service_crashed :
    ∃ c : State smallLib 1,
      (service smallLib 1).Reaches ((service smallLib 1).Enters fun e => isDelivery e = true)
        ⟨smallWorld (some smallRow) 1 "d", fun _ => .idle⟩ c ∧
      c.world.db.row.map (·.status) = some .success ∧ c.world.files.next = 1 := by
  have hruns : ((System.runAll deliveryOnly crashed smallWorker).any fun c =>
      (c.world.service.db.row.map (·.status) = some .success) &&
        c.world.service.files.next = 1) = true := by decide +kernel
  obtain ⟨c', hc', hend⟩ := (Option.any_eq_true _ _).mp hruns
  obtain ⟨hsuccess, hnext⟩ := Bool.and_eq_true_iff.mp hend
  have hrun : (worker smallLib 1).Reaches ((worker smallLib 1).Enters fun e => isDelivery e = true)
      smallWorker c' := (System.reaches_of_runAll hc').mono fun c l hl => by
    cases l with
    | enter t e => exact hl
    | step | abort | event => trivial
  obtain ⟨c, hreaches, hworld, -⟩ := worker_refines_service hrun
  exact ⟨c, hreaches, hworld ▸ of_decide_eq_true hsuccess, hworld ▸ of_decide_eq_true hnext⟩

/-! ## The pool -/

section Pool

variable [PyFloat F]

/-- What a step of the worker can do to the semaphore and the pool. -/
inductive SolverMove (t : Nat) (s : Solver F) : Solver F → Prop where
  | slots (value : Nat) (holders : List Nat) :
      SolverMove t s { s with value := value, holders := holders }
  | submits {pool : SolverPool} (key : SimulationKeyInput F) (raw : SimulationRawData F)
      (accepts : Accepts s.pool s.futures.length pool) :
      SolverMove t s { s with pool := pool, futures := s.futures ++ [submitted t key raw] }
  | abandons (future : Nat) : SolverMove t s (s.abandon future)
  | cancels (which : Nat → Bool) : SolverMove t s (s.cancel which)

theorem move_of_exec {choice : Choice} {t : Nat} {o : WorkerOp F B} {w w' : Worker F B}
    {r : Except Exn o.Resp} (h : workerExec choice t o w = some (r, w')) :
    SolverMove t w.solver w'.solver := by
  cases o with
  | other o =>
      rw [(exec_other h).2]
      exact .slots _ _
  | acquire =>
      rcases exec_acquire h with ⟨-, -, rfl⟩ | ⟨-, rfl⟩
      · exact .slots _ _
      · exact .slots _ _
  | submit key raw =>
      rcases exec_submit h with ⟨pool, haccepts, -, rfl⟩ | ⟨text, -, rfl⟩
      · exact .submits key raw haccepts
      · exact .slots _ _
  | result future =>
      rcases exec_result h with ⟨result, -, hreceive⟩ | ⟨e, -, -, rfl⟩ | ⟨-, rfl | rfl⟩
      · obtain ⟨-, rfl⟩ := Prod.mk.inj hreceive
        exact .slots _ _
      · exact .slots _ _
      · exact .abandons future
      · exact .cancels _
  | release =>
      obtain ⟨-, rfl⟩ := exec_release h
      exact .slots _ _

/-- The unfinished solves are those of the pool in use; a broken pool has none. -/
structure PoolInv (s : Solver F) : Prop where
  pending : ∀ i, i ∈ s.pool.pool.pending ↔
    ∃ x : SolveFuture F, s.futures[i]? = some x ∧ x.answer = none
  broken : s.pool.pool.broken = true → s.pool.pool.pending = []
  replaced : ∀ pool ∈ s.pool.replaced, pool.broken = true ∧ pool.pending = []

/-- A pool that completes some of its solves keeps the others. -/
theorem complete_outcome {s : Solver F} {which : Nat → Bool}
    {outcome : (key : SimulationKeyInput F) → (raw : SimulationRawData F) → Outcome key raw}
    (hpending : ∀ i, i ∈ s.pool.pool.pending ↔
      ∃ x : SolveFuture F, s.futures[i]? = some x ∧ x.answer = none) (i : Nat) :
    (i ∈ s.pool.pool.pending ∧ which i = false) ↔
      ∃ x : SolveFuture F, (s.complete which outcome).futures[i]? = some x ∧ x.answer = none := by
  rw [hpending]
  simp only [Solver.complete, List.getElem?_mapIdx, Option.map_eq_some_iff]
  constructor
  · rintro ⟨⟨x, hx, hnone⟩, hwhich⟩
    refine ⟨x, ⟨x, hx, ?_⟩, hnone⟩
    rw [if_neg]
    exact fun h => by simp [hwhich] at h
  · rintro ⟨x', ⟨x, hx, rfl⟩, hnone⟩
    by_cases hdone : i ∈ s.pool.pool.pending ∧ which i = true
    · rw [if_pos hdone] at hnone
      exact absurd hnone (x.complete_answered outcome)
    · rw [if_neg hdone] at hnone
      have hmem : i ∈ s.pool.pool.pending := (hpending i).mpr ⟨x, hx, hnone⟩
      exact ⟨⟨x, hx, hnone⟩, by simpa [hmem] using hdone⟩

theorem PoolInv.complete {s : Solver F} (h : PoolInv s) (which : Nat → Bool)
    (outcome : (key : SimulationKeyInput F) → (raw : SimulationRawData F) → Outcome key raw) :
    PoolInv (s.complete which outcome) := by
  refine ⟨fun i => ?_, fun hbroken => ?_, h.replaced⟩
  · rw [← complete_outcome h.pending]
    simp [Solver.complete, ProcessPool.complete]
  · show (s.pool.pool.pending.filter fun future => !which future) = []
    rw [h.broken hbroken]
    rfl

theorem PoolInv.submits {s : Solver F} (h : PoolInv s) {t : Nat} {pool : SolverPool}
    (key : SimulationKeyInput F) (raw : SimulationRawData F)
    (haccepts : Accepts s.pool s.futures.length pool) :
    PoolInv { s with pool := pool, futures := s.futures ++ [submitted t key raw] } := by
  have hadded : ∀ i, (∃ x : SolveFuture F,
      (s.futures ++ [submitted t key raw])[i]? = some x ∧ x.answer = none) ↔
        i ∈ s.pool.pool.pending ∨ i = s.futures.length := by
    intro i
    rcases Nat.lt_trichotomy i s.futures.length with hlt | rfl | hgt
    · rw [List.getElem?_append_left hlt, ← h.pending]
      simp [Nat.ne_of_lt hlt]
    · rw [List.getElem?_concat_length]
      exact ⟨fun _ => Or.inr rfl, fun _ => ⟨_, rfl, rfl⟩⟩
    · have hnone : (s.futures ++ [submitted t key raw])[i]? = none := by
        rw [List.getElem?_eq_none_iff, List.length_append, List.length_singleton]
        omega
      have hold : i ∉ s.pool.pool.pending := fun hmem => by
        obtain ⟨x, hx, -⟩ := (h.pending i).mp hmem
        have hlt := (List.getElem?_eq_some_iff.mp hx).1
        omega
      rw [hnone]
      simp [hold, Nat.ne_of_gt hgt]
  cases haccepts with
  | grows works opened =>
      refine ⟨fun i => ?_, fun hbroken => ?_, h.replaced⟩
      · rw [hadded]
        simp
      · exact absurd (works.symm.trans hbroken) (by decide)
  | replaces broken =>
      have hempty := h.broken broken
      refine ⟨fun i => ?_, fun hbroken => (by cases hbroken), fun pool hpool => ?_⟩
      · rw [hadded, hempty]
        simp
      · rcases List.mem_cons.mp hpool with rfl | hold
        · exact ⟨broken, hempty⟩
        · exact h.replaced pool hold

theorem PoolInv.abandons {s : Solver F} (h : PoolInv s) (future : Nat) :
    PoolInv (s.abandon future) := by
  refine ⟨fun i => (h.pending i).trans ?_, h.broken, h.replaced⟩
  simp only [Solver.abandon, List.getElem?_modify, Option.map_eq_map, Option.map_eq_some_iff]
  constructor
  · rintro ⟨x, hx, hnone⟩
    refine ⟨_, ⟨x, hx, rfl⟩, ?_⟩
    split
    · exact hnone
    · exact hnone
  · rintro ⟨-, ⟨x, hx, rfl⟩, hnone⟩
    refine ⟨x, hx, ?_⟩
    split at hnone
    · exact hnone
    · exact hnone

theorem PoolInv.of_move {s s' : Solver F} {t : Nat} (h : PoolInv s) (hmove : SolverMove t s s') :
    PoolInv s' := by
  cases hmove with
  | slots value holders => exact ⟨h.pending, h.broken, h.replaced⟩
  | submits key raw accepts => exact h.submits key raw accepts
  | abandons future => exact h.abandons future
  | cancels which => exact h.complete _ _

theorem PoolInv.of_event {s : Solver F} (h : PoolInv s) (e : SolverEvent) :
    PoolInv (e.effect s) := by
  cases e with
  | finishes future fault => exact h.complete _ _
  | dies =>
      have hdone := h.complete (fun _ => true) fun _ _ => ⟨.error poolTerminated, trivial⟩
      refine ⟨hdone.pending, fun _ => ?_, hdone.replaced⟩
      show (s.pool.pool.pending.filter fun _ => !true) = []
      simp
  | shutsDown queued =>
      have hdone := h.complete queued fun _ _ => ⟨.error .cancelled, trivial⟩
      exact ⟨hdone.pending, hdone.broken, hdone.replaced⟩

/-! ### Outcomes -/

/-- The first outcome of a solve stays. -/
theorem outcomeOf_complete {s : Solver F} {which : Nat → Bool}
    {outcome : (key : SimulationKeyInput F) → (raw : SimulationRawData F) → Outcome key raw}
    {i : Nat} {r : Except Exn (KeySimResult F)} (h : s.outcomeOf i = some r) :
    (s.complete which outcome).outcomeOf i = some r := by
  obtain ⟨x, hx, hr⟩ := Option.bind_eq_some_iff.mp h
  simp only [Solver.outcomeOf, Solver.complete, List.getElem?_mapIdx, hx, Option.map_some,
    Option.bind_some]
  split
  · exact SolveFuture.answer_complete hr outcome
  · exact hr

/-- An outcome is an old one, or that of an unfinished solve which is completed. -/
theorem outcomeOf_of_complete {s : Solver F} {which : Nat → Bool}
    {outcome : (key : SimulationKeyInput F) → (raw : SimulationRawData F) → Outcome key raw}
    {i : Nat} {r : Except Exn (KeySimResult F)}
    (h : (s.complete which outcome).outcomeOf i = some r) :
    s.outcomeOf i = some r ∨
      i ∈ s.pool.pool.pending ∧ ∃ key raw, r = (outcome key raw).1 := by
  obtain ⟨x', hx', hr⟩ := Option.bind_eq_some_iff.mp h
  simp only [Solver.complete, List.getElem?_mapIdx, Option.map_eq_some_iff] at hx'
  obtain ⟨x, hx, rfl⟩ := hx'
  have hsame : x.answer = some r → s.outcomeOf i = some r := fun hold => by
    simp [Solver.outcomeOf, hx, hold]
  by_cases hdone : i ∈ s.pool.pool.pending ∧ which i = true
  · rw [if_pos hdone] at hr
    cases hold : x.answer with
    | some r' =>
        rw [SolveFuture.answer_complete hold] at hr
        exact Or.inl (hsame (hold.trans hr))
    | none =>
        rw [SolveFuture.answer_complete_of_none hold] at hr
        exact Or.inr ⟨hdone.1, x.key, x.raw, (Option.some.inj hr).symm⟩
  · rw [if_neg hdone] at hr
    exact Or.inl (hsame hr)

theorem outcomeOf_abandon (s : Solver F) (future i : Nat) :
    (s.abandon future).outcomeOf i = s.outcomeOf i := by
  simp only [Solver.outcomeOf, Solver.abandon, List.getElem?_modify, Option.map_eq_map]
  cases s.futures[i]? with
  | none => rfl
  | some x =>
      simp only [Option.map_some, Option.bind_some]
      split
      · rfl
      · rfl

theorem outcomeOf_submits {s : Solver F} {t : Nat} {pool : SolverPool}
    {key : SimulationKeyInput F} {raw : SimulationRawData F} (i : Nat) :
    Solver.outcomeOf { s with pool := pool, futures := s.futures ++ [submitted t key raw] } i =
      s.outcomeOf i := by
  unfold Solver.outcomeOf
  rcases Nat.lt_trichotomy i s.futures.length with hlt | rfl | hgt
  · rw [List.getElem?_append_left hlt]
  · rw [List.getElem?_concat_length, List.getElem?_eq_none (Nat.le_refl _)]
    rfl
  · have hlength : (s.futures ++ [submitted t key raw]).length ≤ i := by
      rw [List.length_append, List.length_singleton]
      omega
    rw [List.getElem?_eq_none hlength, List.getElem?_eq_none (Nat.le_of_lt hgt)]

theorem outcomeOf_move {s s' : Solver F} {t i : Nat} {r : Except Exn (KeySimResult F)}
    (hmove : SolverMove t s s') :
    (s.outcomeOf i = some r → s'.outcomeOf i = some r) ∧
      (s'.outcomeOf i = some r → s.outcomeOf i = some r ∨ r = .error .cancelled) := by
  cases hmove with
  | slots value holders => exact ⟨id, Or.inl⟩
  | submits key raw accepts =>
      rw [outcomeOf_submits]
      exact ⟨id, Or.inl⟩
  | abandons future =>
      rw [outcomeOf_abandon]
      exact ⟨id, Or.inl⟩
  | cancels which =>
      refine ⟨outcomeOf_complete, fun h => ?_⟩
      rcases outcomeOf_of_complete h with hold | ⟨-, -, -, rfl⟩
      · exact Or.inl hold
      · exact Or.inr rfl

/-- Only the death of a process ends a solve with `poolTerminated`, and only a
solve of its pool. -/
theorem outcomeOf_event {s : Solver F} {e : SolverEvent} {i : Nat} :
    (∀ r, s.outcomeOf i = some r → (e.effect s).outcomeOf i = some r) ∧
      ((e.effect s).outcomeOf i = some (.error poolTerminated) →
        s.outcomeOf i = some (.error poolTerminated) ∨ e = .dies ∧ i ∈ s.pool.pool.pending) := by
  cases e with
  | finishes future fault =>
      refine ⟨fun r => outcomeOf_complete, fun h => ?_⟩
      rcases outcomeOf_of_complete h with hold | ⟨-, key, raw, houtcome⟩
      · exact Or.inl hold
      · -- a solve that completes raises its own exception
        cases fault with
        | some text => cases houtcome
        | none =>
            simp only [solveOutcome] at houtcome
            cases hrun : runSimulation key raw.C raw.VA raw.consumerNames with
            | ok result => rw [hrun] at houtcome; cases houtcome
            | error e => rw [hrun] at houtcome; cases houtcome
  | dies =>
      refine ⟨fun r h => ?_, fun h => ?_⟩
      · have hkept : (s.complete (fun _ => true) fun _ _ =>
            ⟨.error poolTerminated, trivial⟩).outcomeOf i = some r := outcomeOf_complete h
        exact hkept
      · have h : (s.complete (fun _ => true) fun _ _ =>
            ⟨.error poolTerminated, trivial⟩).outcomeOf i = some (.error poolTerminated) := h
        rcases outcomeOf_of_complete h with hold | ⟨hpending, -⟩
        · exact Or.inl hold
        · exact Or.inr ⟨rfl, hpending⟩
  | shutsDown queued =>
      refine ⟨fun r h => ?_, fun h => ?_⟩
      · have hkept : (s.cancel queued).outcomeOf i = some r := outcomeOf_complete h
        exact hkept
      · have h : (s.complete queued fun _ _ => ⟨.error .cancelled, trivial⟩).outcomeOf i =
            some (.error poolTerminated) := h
        rcases outcomeOf_of_complete h with hold | ⟨-, key, raw, houtcome⟩
        · exact Or.inl hold
        · cases houtcome

/-! ### Runs -/

variable {lib : Libraries F B L} {simulationId : Nat}
  {allowed : System.Config (worker lib simulationId) →
    System.Label (worker lib simulationId) → Prop}
  {c c' c'' : System.Config (worker lib simulationId)}

/-- A step moves the pool by an operation of its task, or from outside. -/
theorem solver_of_next {l : System.Label (worker lib simulationId)}
    (hnext : (worker lib simulationId).next l c = some c') :
    (∃ t, SolverMove t c.world.solver c'.world.solver) ∨
      ∃ e, l = .event (.inr e) ∧ c'.world.solver = e.effect c.world.solver := by
  have hmoves := System.moves_of_next hnext
  generalize c'.world = w' at hmoves ⊢
  cases hmoves with
  | @enter t e w p henter =>
      obtain ⟨x, -, heq⟩ := Option.map_eq_some_iff.mp henter
      obtain ⟨rfl, -⟩ := Prod.mk.inj heq
      exact Or.inl ⟨t, .slots _ _⟩
  | @step t choice o k r w htask hexec => exact Or.inl ⟨t, move_of_exec hexec⟩
  | abort t => exact Or.inl ⟨t, .slots _ _⟩
  | event e =>
      cases e with
      | inl crm => exact Or.inl ⟨0, .slots _ _⟩
      | inr e => exact Or.inr ⟨e, rfl, rfl⟩

theorem poolInv_of_reaches (h : PoolInv c.world.solver)
    (hrun : (worker lib simulationId).Reaches allowed c c') : PoolInv c'.world.solver := by
  induction hrun with
  | refl => exact h
  | tail _ _ step ih =>
      rcases solver_of_next step with ⟨t, hmove⟩ | ⟨e, -, heq⟩
      · exact ih.of_move hmove
      · exact heq ▸ ih.of_event e

theorem poolInv_start (poolSize : Nat) : PoolInv (Solver.start poolSize : Solver F) :=
  { pending := fun i => by simp [Solver.start, ProcessPool.fresh]
    broken := fun h => by cases h
    replaced := fun pool h => by cases h }

/-- A solve's outcome stays to the end of the run. -/
theorem outcomeOf_of_reaches {i : Nat} {r : Except Exn (KeySimResult F)}
    (h : c.world.solver.outcomeOf i = some r)
    (hrun : (worker lib simulationId).Reaches allowed c c') :
    c'.world.solver.outcomeOf i = some r := by
  induction hrun with
  | refl => exact h
  | tail _ _ step ih =>
      rcases solver_of_next step with ⟨t, hmove⟩ | ⟨e, -, heq⟩
      · exact (outcomeOf_move hmove).1 ih
      · rw [heq]
        exact outcomeOf_event.1 r ih

/-- A run in which a process died while solve `i` was unfinished. -/
def SawDeath (allowed : System.Config (worker lib simulationId) →
    System.Label (worker lib simulationId) → Prop) (i : Nat)
    (c c' : System.Config (worker lib simulationId)) : Prop :=
  ∃ c₁ c₂, (worker lib simulationId).Reaches allowed c c₁ ∧
    i ∈ c₁.world.solver.pool.pool.pending ∧ allowed c₁ (.event (.inr .dies)) ∧
    (worker lib simulationId).next (.event (.inr .dies)) c₁ = some c₂ ∧
    (worker lib simulationId).Reaches allowed c₂ c'

theorem outcomeOf_of_sawDeath {i : Nat} (hc : PoolInv c.world.solver)
    (h : SawDeath allowed i c c') :
    c'.world.solver.outcomeOf i = some (.error poolTerminated) := by
  obtain ⟨c₁, c₂, hbefore, hpending, -, hstep, hafter⟩ := h
  refine outcomeOf_of_reaches ?_ hafter
  obtain rfl := Option.some.inj hstep
  obtain ⟨x, hx, hnone⟩ := ((poolInv_of_reaches hc hbefore).pending i).mp hpending
  show Solver.outcomeOf (SolverEvent.effect c₁.world.solver .dies) i = _
  have hdone : (c₁.world.solver.complete (fun _ => true) fun _ _ =>
      ⟨.error poolTerminated, trivial⟩).outcomeOf i = some (.error poolTerminated) := by
    simp [Solver.outcomeOf, Solver.complete, hx, hpending,
      SolveFuture.answer_complete_of_none hnone]
  exact hdone

theorem sawDeath_of_outcomeOf {i : Nat} (hc : c.world.solver.outcomeOf i = none)
    (hrun : (worker lib simulationId).Reaches allowed c c')
    (h : c'.world.solver.outcomeOf i = some (.error poolTerminated)) : SawDeath allowed i c c' := by
  induction hrun with
  | refl =>
      rw [hc] at h
      cases h
  | @tail c' c'' l run hallowed step ih =>
      have hextends : SawDeath allowed i c c' → SawDeath allowed i c c'' := by
        rintro ⟨c₁, c₂, hbefore, hpending, hdies, hnext, hafter⟩
        exact ⟨c₁, c₂, hbefore, hpending, hdies, hnext, hafter.tail hallowed step⟩
      rcases solver_of_next step with ⟨t, hmove⟩ | ⟨e, hl, heq⟩
      · rcases (outcomeOf_move hmove).2 h with hold | hcancelled
        · exact hextends (ih hold)
        · cases hcancelled
      · rw [heq] at h
        rcases outcomeOf_event.2 h with hold | ⟨rfl, hpending⟩
        · exact hextends (ih hold)
        · subst hl
          exact ⟨c', c'', run, hpending, hallowed, step, .refl⟩

/-- In every state of every run from the start of a worker: the pools that were
replaced are broken and have nothing left to do, so that the unfinished solves are
those of the pool in use; and a solve ends as a crash of the pool exactly when one
of its processes died before the solve was finished. -/
theorem pool_replaced {poolSize : Nat} (hstart : c.world.solver = .start poolSize)
    (hrun : (worker lib simulationId).Reaches allowed c c') :
    (∀ pool ∈ c'.world.solver.pool.replaced, pool.broken = true ∧ pool.pending = []) ∧
    (∀ i, i ∈ c'.world.solver.pool.pool.pending ↔
      i < c'.world.solver.futures.length ∧ c'.world.solver.outcomeOf i = none) ∧
    ∀ i, c'.world.solver.outcomeOf i = some (.error poolTerminated) ↔ SawDeath allowed i c c' := by
  have hinv : PoolInv c.world.solver := hstart ▸ poolInv_start poolSize
  have hnone : ∀ i, c.world.solver.outcomeOf i = none := fun i => by rw [hstart]; rfl
  have hinv' := poolInv_of_reaches hinv hrun
  refine ⟨hinv'.replaced, fun i => (hinv'.pending i).trans ?_, fun i =>
    ⟨sawDeath_of_outcomeOf (hnone i) hrun, outcomeOf_of_sawDeath hinv⟩⟩
  constructor
  · rintro ⟨x, hx, hunfinished⟩
    exact ⟨(List.getElem?_eq_some_iff.mp hx).1, by simp [Solver.outcomeOf, hx, hunfinished]⟩
  · rintro ⟨hlt, hunfinished⟩
    have hx := List.getElem?_eq_getElem hlt
    exact ⟨_, hx, by simpa [Solver.outcomeOf, hx] using hunfinished⟩

end Pool

theorem pool_replaced_crashed :
    ∃ c : System.Config (worker smallLib 1), c.world.solver.pool.replaced.length = 1 ∧
      (∀ pool ∈ c.world.solver.pool.replaced, pool.broken = true ∧ pool.pending = []) ∧
      SawDeath (fun c l => deliveryOnly c l = true) 0 smallWorker c ∧
      ¬ SawDeath (fun c l => deliveryOnly c l = true) 1 smallWorker c := by
  have hruns : ((System.runAll deliveryOnly crashed smallWorker).any fun c =>
      decide (c.world.solver.pool.replaced.length = 1) &&
        ((c.world.solver.outcomeOf 0).any fun r => r.map (fun _ => ()) = .error poolTerminated) &&
        (c.world.solver.outcomeOf 1).any Except.isOk) = true := by decide +kernel
  obtain ⟨c, hc, hend⟩ := (Option.any_eq_true _ _).mp hruns
  obtain ⟨hend, hlast⟩ := Bool.and_eq_true_iff.mp hend
  obtain ⟨hreplaced, hfirst⟩ := Bool.and_eq_true_iff.mp hend
  obtain ⟨first, hfirst, hcrashed⟩ := (Option.any_eq_true _ _).mp hfirst
  obtain ⟨last, hlast, hok⟩ := (Option.any_eq_true _ _).mp hlast
  obtain ⟨hbroken, -, hcrash⟩ := pool_replaced (c := smallWorker) rfl (System.reaches_of_runAll hc)
  refine ⟨c, of_decide_eq_true hreplaced, hbroken, (hcrash 0).mp ?_, fun hsaw => ?_⟩
  · have hcrashed := of_decide_eq_true hcrashed
    cases first with
    | ok result => cases hcrashed
    | error e =>
        obtain rfl := Except.error.inj hcrashed
        exact hfirst
  · obtain rfl := Option.some.inj (hlast.symm.trans ((hcrash 1).mpr hsaw))
    cases hok

end SimulationKey.Theorems.SolverPool
