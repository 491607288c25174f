import SimulationKey.Backend.Runs
import SimulationKey.Worker.Awaited
import SimulationKey.Worker.SeriesFile

/-!
# The series files of a delivery

Whatever the solve and the persisting raise, somebody who knows the path deletes
the file: the solver process until its result is received, the handler after it.
A process that dies while it owns the file takes the path with it.

* **the solver process** — at every point it has sent nothing, or the result with
  the file, or an exception and has no file (`upholds_poolProcess`);
* **the handler** — it deletes the file it was sent on every exit
  (`upholds_handleMessage`), so a file is left exactly when a solver process has
  abandoned it (`series_files_removed_iff`).
-/

namespace SimulationKey.Theorems.SeriesFiles

open Kit Kit.Prog

variable {F B L : Type}

/-! ## The solver process -/

section Solver

/-- The file that was created is there until it is deleted. -/
def Kept (s : SolverState F) : Prop :=
  ∀ path, s.self.created = some path →
    path < s.dir.next ∧ (s.dir.content path = none ↔ s.self.removed = true)

theorem kept_elsewhere {s : SolverState F} (h : Kept s) {dir : TempDir}
    (helse : s.dir.Elsewhere (fun path => s.self.created = some path) dir) :
    Kept { s with dir := dir } := by
  intro path hpath
  obtain ⟨hlt, hkept⟩ := h path hpath
  refine ⟨hlt.trans_le helse.next, ?_⟩
  show dir.content path = none ↔ _
  rw [helse.kept path hpath]
  exact hkept

theorem kept_append {s : SolverState F} (h : Kept s) (path : Nat) (bytes : List UInt8) :
    Kept { s with dir := s.dir.append path bytes } := by
  intro p hp
  obtain ⟨hlt, hkept⟩ := h p hp
  refine ⟨hlt, ?_⟩
  rw [← hkept]
  show Function.update s.dir.content path _ p = none ↔ _
  by_cases heq : p = path
  · subst heq
    simp
  · rw [Function.update_of_ne heq]

theorem kept_delete {s : SolverState F} (h : Kept s) (path : Nat) :
    Kept { dir := s.dir.delete path, self :=
      { s.self with removed := s.self.removed || s.self.created = some path } } := by
  intro p hp
  obtain ⟨hlt, hkept⟩ := h p hp
  have hcreated : s.self.created = some p := hp
  refine ⟨hlt, ?_⟩
  show Function.update s.dir.content path none p = none ↔ (s.self.removed || _) = true
  by_cases heq : p = path
  · subst heq
    simp [hcreated]
  · have hne : s.self.created ≠ some path := by
      rw [hcreated]
      exact fun h => heq (Option.some.inj h)
    rw [Function.update_of_ne heq, hkept]
    simp [hne]

theorem kept_create {s : SolverState F} :
    Kept { dir := s.dir.create, self :=
      { s.self with created := some s.dir.next, removed := false } } := by
  intro p hp
  obtain rfl : s.dir.next = p := Option.some.inj hp
  refine ⟨Nat.lt_succ_self _, ?_⟩
  simp [TempDir.create]

/-- Nothing is sent yet. -/
structure Silent (s : SolverState F) : Prop where
  kept : Kept s
  sent : s.self.sent = none
  sendFailed : s.self.sendFailed = false

/-- It owns no file. -/
structure Empty (s : SolverState F) : Prop extends Silent s where
  empty : ∀ path, s.self.created = some path → s.self.removed = true

/-- It owns a file. -/
structure Holding (path : Nat) (s : SolverState F) : Prop extends Silent s where
  created : s.self.created = some path
  removed : s.self.removed = false

/-- At every point: what was sent, if anything, is right about the file. -/
structure Honest (s : SolverState F) : Prop where
  kept : Kept s
  result : ∀ solved, s.self.sent = some (.ok solved) →
    s.self.created = some solved.2 ∧ s.self.removed = false ∧ s.self.sendFailed = false
  error : ∀ e, s.self.sent = some (.error e) → s.self.sendFailed = false →
    ∀ path, s.self.created = some path → s.self.removed = true

theorem Silent.honest {s : SolverState F} (h : Silent s) : Honest s :=
  { kept := h.kept
    result := fun solved hsent => by rw [h.sent] at hsent; cases hsent
    error := fun e hsent => by rw [h.sent] at hsent; cases hsent }

theorem Empty.elsewhere {s : SolverState F} (h : Empty s) {dir : TempDir}
    (helse : s.dir.Elsewhere (fun path => s.self.created = some path) dir) :
    Empty { s with dir := dir } :=
  { kept := kept_elsewhere h.kept helse
    sent := h.sent
    sendFailed := h.sendFailed
    empty := h.empty }

theorem Holding.elsewhere {path : Nat} {s : SolverState F} (h : Holding path s) {dir : TempDir}
    (helse : s.dir.Elsewhere (fun path => s.self.created = some path) dir) :
    Holding path { s with dir := dir } :=
  { kept := kept_elsewhere h.kept helse
    sent := h.sent
    sendFailed := h.sendFailed
    created := h.created
    removed := h.removed }

theorem empty_fresh (dir : TempDir) : Empty (F := F) ⟨dir, .fresh⟩ :=
  { kept := fun path h => by cases h
    sent := rfl
    sendFailed := rfl
    empty := fun path h => by cases h }

theorem Empty.deleted {path : Nat} {s : SolverState F} (h : Holding path s) :
    Empty { dir := s.dir.delete path, self :=
      { s.self with removed := s.self.removed || s.self.created = some path } } :=
  { kept := kept_delete h.kept path
    sent := h.sent
    sendFailed := h.sendFailed
    empty := fun _ _ => by simp [h.created] }

/-- Operations on a file that leave it where it is. -/
def OnFile : SolverOp F → Prop
  | .fdopen _ | .write .. | .close _ | .solved .. => True
  | .simulate .. | .mkstemp | .remove _ | .send _ => False

variable [PyFloat F] {floatRepr : F → List Char}

theorem holding_onFile {path : Nat} {o : SolverOp F} (ho : OnFile o) {s s' : SolverState F}
    {r : Except Exn o.Resp} (h : Holding path s) (hmay : solverMay o s r s') :
    Holding path s' := by
  obtain ⟨dir, helse, heffect⟩ := hmay
  have hdir := h.elsewhere helse
  cases o with
  | fdopen p | close p | solved result p =>
      obtain ⟨rfl, -⟩ := heffect
      exact hdir
  | write p bytes =>
      have happend : ∀ part, Holding path (⟨dir.append p part, s.self⟩ : SolverState F) :=
        fun part => { hdir with kept := kept_append hdir.kept p part }
      rcases heffect with ⟨-, rfl⟩ | ⟨text, part, -, rfl⟩
      · exact happend bytes
      · exact happend part
  | simulate | mkstemp | remove | send => exact ho.elim

/-- A program that only works on the file it holds. -/
theorem upholds_onFile {α : Type} {path : Nat} {p : SolverAct F α} (hops : p.AllOps OnFile)
    {s : SolverState F} (h : Holding path s) :
    p.Upholds solverMay Honest s fun _ => Holding path :=
  .of_allOps (hops.mono fun _ ho _ _ _ hA hmay => holding_onFile ho hA hmay)
    (fun _ hA => hA.honest) h

omit [PyFloat F] in
theorem onFile_writeAll (path : Nat) (pieces : List (List UInt8)) :
    (writeAll path pieces : SolverAct F Unit).AllOps OnFile := by
  induction pieces with
  | nil => trivial
  | cons piece rest ih => exact .bind (.perform trivial) fun _ => ih

theorem upholds_removeAndRaise {α : Type} {path : Nat} (e : Exn) {s : SolverState F}
    (h : Holding path s) :
    (removeAndRaise path e : SolverAct F α).Upholds solverMay Honest s fun r s' =>
      Empty s' ∧ ∀ a, r ≠ .ok a := by
  refine Upholds.bind (Q := fun _ => Empty) (.perform h.honest fun r s' hmay => ?_)
    (fun _ s' hs' => ⟨hs'.honest, hs', fun a ha => by cases ha⟩)
    fun _ s' hs' => ⟨hs'.honest, hs', fun a ha => by cases ha⟩
  obtain ⟨dir, helse, -, rfl⟩ := hmay
  have hempty := Empty.deleted (h.elsewhere helse)
  exact ⟨hempty.honest, hempty⟩

/-- What a program that hands a file on leaves. -/
def Leaves {α : Type} (path : α → Nat) (r : Except Exn α) (s : SolverState F) : Prop :=
  match r with
  | .ok a => Holding (path a) s
  | .error _ => Empty s

theorem upholds_toTempFile (result : KeySimResult F) {s : SolverState F} (h : Empty s) :
    (toTempFile floatRepr result).Upholds solverMay Honest s (Leaves id) := by
  refine Upholds.bind (Q := Leaves id) (.perform h.honest fun r s' hmay => ?_)
    (fun path s' hs' => ?_) fun e s' hs' => ⟨hs'.honest, hs'⟩
  · obtain ⟨dir, helse, heffect⟩ := hmay
    have hdir := h.elsewhere helse
    rcases heffect with ⟨rfl, rfl⟩ | ⟨rfl, text, rfl⟩
    · have hholding : Holding dir.next (⟨dir.create, { s.self with
          created := some dir.next, removed := false }⟩ : SolverState F) :=
        { kept := kept_create (s := ⟨dir, s.self⟩)
          sent := h.sent
          sendFailed := h.sendFailed
          created := rfl
          removed := rfl }
      exact ⟨hholding.honest, hholding⟩
    · exact ⟨hdir.honest, hdir⟩
  · -- the file is created: writing it, and deleting it if that raises
    have hholding : Holding path s' := hs'
    have hbody : (do
        inSolver (.fdopen path)
        (writeAll path (writeJson floatRepr result)).ensuring (inSolver (.close path))
        : SolverAct F Unit).AllOps OnFile :=
      .bind (.perform trivial) fun _ => .ensuring (onFile_writeAll _ _) (.perform trivial)
    refine Upholds.bind (Q := fun r s' => (∃ u, r = .ok u) ∧ Holding path s' ∨
        (∃ e, r = .error e) ∧ Empty s') ?_ (fun u s' hs' => ?_) fun e s' hs' => ?_
    · refine Upholds.tryCatch (upholds_onFile hbody hholding)
        (fun u s' hs' => ⟨hs'.honest, .inl ⟨⟨u, rfl⟩, hs'⟩⟩) fun e s' hs' => ?_
      refine (upholds_removeAndRaise e hs').mono fun r s' hr => .inr ⟨?_, hr.1⟩
      cases r with
      | ok u => exact absurd rfl (hr.2 u)
      | error e => exact ⟨e, rfl⟩
    · rcases hs' with ⟨-, hs'⟩ | ⟨⟨e, he⟩, -⟩
      · exact ⟨hs'.honest, hs'⟩
      · cases he
    · rcases hs' with ⟨⟨u, hu⟩, -⟩ | ⟨-, hs'⟩
      · cases hu
      · exact ⟨hs'.honest, hs'⟩

/-- What is handed on is where the file is. -/
theorem upholds_runSimulationSubprocess (key : SimulationKeyInput F) (raw : SimulationRawData F)
    {s : SolverState F} (h : Empty s) :
    (runSimulationSubprocess floatRepr key raw).Upholds solverMay Honest s (Leaves Prod.snd) := by
  refine Upholds.bind (Q := fun _ => Empty) (.perform h.honest fun r s' hmay => ?_)
    (fun result s' hs' => ?_) fun e s' hs' => ⟨hs'.honest, hs'⟩
  · obtain ⟨dir, helse, rfl, -⟩ := hmay
    have hdir := h.elsewhere helse
    exact ⟨hdir.honest, hdir⟩
  refine Upholds.bind (upholds_toTempFile result hs') (fun path s'' hs'' => ?_)
    fun e s'' hs'' => ⟨(show Empty s'' from hs'').honest, hs''⟩
  have hholding : Holding path s'' := hs''
  refine Upholds.tryCatch (Q := fun r s₃ => Holding path s₃ ∧ ∀ solved, r = .ok solved →
      solved.2 = path) (.perform hholding.honest fun r s₃ hmay => ?_)
    (fun solved s₃ hs₃ => ⟨hs₃.1.honest, ?_⟩) fun e s₃ hs₃ => ?_
  · have hkept := holding_onFile (o := .solved result path) trivial hholding hmay
    obtain ⟨dir, -, -, hr⟩ := hmay
    refine ⟨hkept.honest, hkept, fun solved hsolved => ?_⟩
    rcases hr with rfl | ⟨text, rfl⟩
    · obtain rfl := Except.ok.inj hsolved
      rfl
    · cases hsolved
  · show Holding solved.2 s₃
    rw [hs₃.2 solved rfl]
    exact hs₃.1
  · refine (upholds_removeAndRaise e hs₃.1).mono fun r s₄ hr => ?_
    cases r with
    | ok solved => exact absurd rfl (hr.2 solved)
    | error e => exact hr.1

/-- What was sent is right at every point, so wherever the process stops. -/
theorem upholds_poolProcess (key : SimulationKeyInput F) (raw : SimulationRawData F)
    {s : SolverState F} (h : Empty s) :
    (poolProcess floatRepr key raw).Upholds solverMay Honest s fun _ => Honest := by
  refine Upholds.andThen (upholds_runSimulationSubprocess key raw h) fun r s' hs' => ?_
  cases r with
  | error e =>
      have hempty : Empty s' := hs'
      refine .perform hempty.honest fun r s'' hmay => ?_
      obtain ⟨dir, helse, heffect⟩ := hmay
      have hdir := hempty.elsewhere helse
      rcases heffect with ⟨-, rfl⟩ | ⟨text, -, rfl⟩
      · have hsent : Honest (⟨dir, { s'.self with sent := some (.error e) }⟩ : SolverState F) :=
          { kept := hdir.kept
            result := fun solved hsolved => by cases hsolved
            error := fun _ _ _ => hdir.empty }
        exact ⟨hsent, hsent⟩
      · have hfailed : Honest (⟨dir, { s'.self with sendFailed := true }⟩ : SolverState F) :=
          { kept := hdir.kept
            result := fun solved hsolved => absurd (hdir.sent.symm.trans hsolved) (by simp)
            error := fun _ _ _ => hdir.empty }
        exact ⟨hfailed, hfailed⟩
  | ok solved =>
      -- the result cannot be sent: the exception is, and the file stays
      have hholding : Holding solved.2 s' := hs'
      refine Upholds.tryCatch (Q := fun r s'' => Honest s'' ∧ ∀ e, r = .error e →
          Kept s'' ∧ s''.self.sent = none ∧ s''.self.sendFailed = true)
        (.perform hholding.honest fun r s'' hmay => ?_) (fun _ s'' hs'' => ⟨hs''.1, hs''.1⟩)
        fun e s'' hs'' => ?_
      · obtain ⟨dir, helse, heffect⟩ := hmay
        have hdir := hholding.elsewhere helse
        rcases heffect with ⟨rfl, rfl⟩ | ⟨text, rfl, rfl⟩
        · have hsent : Honest (⟨dir, { s'.self with sent := some (.ok solved) }⟩ :
              SolverState F) :=
            { kept := hdir.kept
              result := fun solved' hsolved => by
                obtain rfl := Except.ok.inj (Option.some.inj hsolved)
                exact ⟨hdir.created, hdir.removed, hdir.sendFailed⟩
              error := fun e hsolved => by cases hsolved }
          exact ⟨hsent, hsent, fun e he => by cases he⟩
        · have hfailed : Honest (⟨dir, { s'.self with sendFailed := true }⟩ : SolverState F) :=
            { kept := hdir.kept
              result := fun solved' hsolved => absurd (hdir.sent.symm.trans hsolved) (by simp)
              error := fun e hsolved => absurd (hdir.sent.symm.trans hsolved) (by simp) }
          exact ⟨hfailed, hfailed, fun _ _ => ⟨hdir.kept, hdir.sent, rfl⟩⟩
      · obtain ⟨hkept, hunsent, hfailed⟩ := hs''.2 e rfl
        refine .perform hs''.1 fun r s₃ hmay => ?_
        obtain ⟨dir, helse, heffect⟩ := hmay
        have hdir := kept_elsewhere hkept helse
        have hlost : ∀ p : SolverProcess F, p.sendFailed = true → Kept ⟨dir, p⟩ →
            (∀ solved', p.sent ≠ some (.ok solved')) → Honest (⟨dir, p⟩ : SolverState F) :=
          fun p hp hkeptp hnone =>
            { kept := hkeptp
              result := fun solved' hsolved => absurd hsolved (hnone solved')
              error := fun _ _ hsendFailed => by
                rw [show p.sendFailed = false from hsendFailed] at hp
                cases hp }
        rcases heffect with ⟨-, rfl⟩ | ⟨text, -, rfl⟩
        · have hsent := hlost { s''.self with sent := some (.error e) } hfailed hdir (by simp)
          exact ⟨hsent, hsent⟩
        · have hsent := hlost { s''.self with sendFailed := true } rfl hdir
            (by simp [hunsent])
          exact ⟨hsent, hsent⟩

end Solver

/-! ## The delivery -/

section Handler

/-- The files of its solver processes are deleted, but those abandoned. -/
def Accounted (d : Delivery F) : Prop :=
  ∀ p ∈ d.solvers, ∀ path, p.created = some path →
    (d.dir.content path = none ↔ ¬ p.Abandons)

theorem Accounted.tidy_iff {d : Delivery F} (h : Accounted d) :
    d.Tidy ↔ ∀ p ∈ d.solvers, ¬ p.Abandons := by
  constructor
  · intro htidy p hp habandons
    obtain ⟨path, hpath⟩ := Option.ne_none_iff_exists'.1 habandons.1
    exact (h p hp path hpath).1 (htidy path ⟨p, hp, hpath⟩) habandons
  · rintro hkept path ⟨p, hp, hpath⟩
    exact (h p hp path hpath).2 (hkept p hp)

/-- What the rest of the machine cannot change. -/
def Stable (A : Delivery F → Prop) : Prop :=
  ∀ d dir, A d → d.dir.Elsewhere d.Owns dir → A { d with dir := dir }

theorem stable_accounted : Stable (F := F) Accounted := by
  intro d dir h helse p hp path hpath
  show dir.content path = none ↔ _
  rw [helse.kept path ⟨p, hp, hpath⟩]
  exact h p hp path hpath

/-- No solver process has worked for it. -/
def Unsolved (d : Delivery F) : Prop := d.solvers = []

/-- The handler owns the file. -/
def Handed (path : Nat) (d : Delivery F) : Prop :=
  ∃ p, d.solvers = [p] ∧ p.created = some path ∧ ¬ p.Abandons

theorem Unsolved.accounted {d : Delivery F} (h : Unsolved d) : Accounted d := by
  intro p hp
  rw [show d.solvers = [] from h] at hp
  cases hp

/-- A process that was answered for, alone. -/
theorem accounted_one {s : SolverState F} (h : Kept s)
    (habandons : ∀ path, s.self.created = some path → (s.self.removed = true ↔ ¬ s.self.Abandons)) :
    Accounted (⟨s.dir, [s.self]⟩ : Delivery F) := by
  intro p hp path hpath
  obtain rfl := List.mem_singleton.1 hp
  rw [← habandons path hpath]
  exact (h path hpath).2

/-- The operations that are not about series files. -/
def keepsFiles : Op F B → Bool
  | .runSimulation .. | .remove _ => false
  | _ => true

variable [PyFloat F] {floatRepr : F → List Char} {lib : Libraries F B L} {simulationId : Nat}
  {delivered : Option Nat} {d : Delivery F} {α : Type}

/-- What stays true while nothing is done about series files. -/
theorem upholds_keepsFiles {A : Delivery F → Prop} (hA : Stable A) {p : Act F B α}
    (hops : p.AllOps fun o => keepsFiles o = true) (h : A d) :
    p.Upholds (deliveryMay floatRepr) (fun _ => True) d fun _ => A := by
  refine .of_allOps (hops.mono fun o ho d r d' hd hmay => ?_) (fun _ _ => trivial) h
  obtain ⟨dir, helse, heffect⟩ := hmay
  obtain rfl : d' = { d with dir := dir } := by
    cases o with
    | runSimulation | remove => cases ho
    | _ => exact heffect
  exact hA d dir hd helse

/-! ### Operations -/

section Operations

omit [PyFloat F]

theorem keepsFiles_of_loads {o : Op F B} (h : o.loads = true) : keepsFiles o = true := by
  cases o <;> first | rfl | cases h

theorem keepsFiles_orTransient (what : String) {body : Act F B α}
    (hbody : body.AllOps fun o => keepsFiles o = true) :
    (orTransient what body).AllOps fun o => keepsFiles o = true :=
  .tryCatch hbody fun _ => trivial

theorem keepsFiles_saveFailure (id : Nat) (m : String) :
    (saveFailure id m : Act F B Unit).AllOps fun o => keepsFiles o = true :=
  (loads_saveFailure id m).mono fun _ => keepsFiles_of_loads

theorem keepsFiles_saveSuccess (id : Nat) (result : KeySimResult F) (path : Nat) :
    (saveSuccess id result path : Act F B Unit).AllOps fun o => keepsFiles o = true :=
  (records_saveSuccess id result path).mono fun _ h => keepsFiles_of_loads (loads_of_records h)

end Operations

theorem keepsFiles_loadSource (snapshot : SimulationModel) (keyInput : SimulationKeyInput F) :
    (loadSource lib simulationId snapshot keyInput :
      Act F B (Except (Option SourceKey) (SimulationRawData F))).AllOps
      fun o => keepsFiles o = true :=
  (loads_loadSource lib simulationId snapshot keyInput).mono fun _ => keepsFiles_of_loads

/-! ### The solve -/

/-- What a solve leaves to the handler. -/
def Solved (r : Except Exn (KeySimResult F × Nat)) (d : Delivery F) : Prop :=
  match r with
  | .ok solved => Handed solved.2 d
  | .error _ => Accounted d

/-- A solve, wherever its process stopped. -/
theorem solved_of_solves {key : SimulationKeyInput F} {raw : SimulationRawData F}
    (h : Unsolved d) {r : Except Exn (KeySimResult F × Nat)} {d' : Delivery F}
    (hsolves : Solves floatRepr key raw d r d') : Solved r d' := by
  have hsolvers : d.solvers = [] := h
  cases hsolves with
  | refused text => exact h.accounted
  | @pool s _ run hsent =>
      rw [hsolvers, List.nil_append]
      have honest := (upholds_poolProcess key raw (empty_fresh d.dir)).visits run
      cases r with
      | ok solved =>
          obtain ⟨hcreated, -, hdelivered⟩ := honest.result solved hsent
          refine ⟨s.self, rfl, hcreated, fun habandons => ?_⟩
          rcases habandons.2.2 with hunsent | hfailed
          · rw [hsent] at hunsent
            cases hunsent
          · rw [hdelivered] at hfailed
            cases hfailed
      | error e =>
          refine accounted_one honest.kept fun path hpath => ?_
          by_cases hfailed : s.self.sendFailed = true
          · simp [SolverProcess.Abandons, hpath, hfailed]
          · have hdelivered : s.self.sendFailed = false := Bool.eq_false_iff.2 hfailed
            have hremoved := honest.error e hsent hdelivered path hpath
            simp [SolverProcess.Abandons, hremoved]
  | @broken s text run =>
      -- nothing was received: the file stays, unless it was deleted again
      rw [hsolvers, List.nil_append]
      have honest := (upholds_poolProcess key raw (empty_fresh d.dir)).visits run
      refine accounted_one (s := ⟨s.dir, { s.self with sent := none }⟩) honest.kept
        fun path hpath => ?_
      have hcreated : s.self.created = some path := hpath
      simp [SolverProcess.Abandons, hcreated]
  | @inline s _ run =>
      rw [hsolvers, List.nil_append]
      have hleft := (upholds_runSimulationSubprocess key raw (empty_fresh d.dir)).ends run
      cases r with
      | ok solved =>
          have hholding : Holding solved.2 s := hleft
          refine ⟨_, rfl, hholding.created, fun habandons => ?_⟩
          rcases habandons.2.2 with hunsent | hfailed
          · cases hunsent
          · exact Bool.false_ne_true (hholding.sendFailed.symm.trans hfailed)
      | error e =>
          have hempty : Empty s := hleft
          refine accounted_one (s := ⟨s.dir, { s.self with sent := some (.error e) }⟩)
            hempty.kept fun path hpath => ?_
          have hremoved := hempty.empty path hpath
          simp [SolverProcess.Abandons, hremoved]

theorem upholds_runSolver (key : SimulationKeyInput F) (raw : SimulationRawData F)
    (h : Unsolved d) :
    (runSolver key raw : Act F B _).Upholds (deliveryMay floatRepr) (fun _ => True) d Solved := by
  refine Upholds.tryCatch (Q := Solved) (.perform trivial fun r d' hmay => ?_)
    (fun solved d' hd' => ⟨trivial, hd'⟩) fun e d' hd' => ?_
  · obtain ⟨dir, -, hsolves⟩ := hmay
    exact ⟨trivial, solved_of_solves (d := { d with dir := dir }) h hsolves⟩
  · cases e with
    | brokenExecutor text => exact ⟨trivial, hd'⟩
    | _ => exact ⟨trivial, hd'⟩

/-- It returned no result, and no file is left to delete. -/
def Failed (r : Except Exn (Except (Option SourceKey) α)) (d : Delivery F) : Prop :=
  (∀ a, r ≠ .ok (.ok a)) ∧ Accounted d

theorem upholds_settle (m : String) (key : Option SourceKey) (h : Accounted d) :
    (settle simulationId m key : Act F B (Except (Option SourceKey) α)).Upholds
      (deliveryMay floatRepr) (fun _ => True) d Failed :=
  .bind (upholds_keepsFiles stable_accounted (keepsFiles_saveFailure _ _) h)
    (fun _ d' hd' => ⟨trivial, fun _ h => (by cases h), hd'⟩)
    fun _ d' hd' => ⟨trivial, fun _ h => (by cases h), hd'⟩

theorem upholds_afterSolverCrash {text : String} {key : Option SourceKey} (h : Accounted d) :
    (afterSolverCrash simulationId delivered text key :
      Act F B (Except (Option SourceKey) α)).Upholds (deliveryMay floatRepr) (fun _ => True) d
      Failed := by
  cases delivered with
  | none => exact upholds_settle _ _ h
  | some n =>
      simp only [afterSolverCrash]
      by_cases hn : n < maxSolverCrashDeliveries
      · simp only [hn, if_true]
        exact ⟨trivial, fun _ h => (by cases h), h⟩
      · simp only [hn, if_false]
        exact upholds_settle _ _ h

/-- The failures of a solve are settled, with no file to delete. -/
theorem upholds_solveRun (snapshot : SimulationModel) (key : SimulationKeyInput F)
    (raw : SimulationRawData F) (h : Unsolved d) :
    (solveRun simulationId delivered snapshot key raw :
      Act F B (Except (Option SourceKey) (KeySimResult F × Nat))).Upholds (deliveryMay floatRepr)
      (fun _ => True) d fun r d' =>
        (∃ solved, r = .ok (.ok solved) ∧ Handed solved.2 d') ∨
          (∀ solved, r ≠ .ok (.ok solved)) ∧ Accounted d' := by
  refine Upholds.tryCatch (Q := fun r d' => (∃ solved, r = .ok (.ok solved) ∧ Handed solved.2 d') ∨
    ∃ e, r = .error e ∧ Accounted d') ?_ (fun solved d' hd' => ⟨trivial, ?_⟩) fun e d' hd' => ?_
  · exact Upholds.bind (upholds_runSolver key raw h)
      (fun solved d' hd' => ⟨trivial, .inl ⟨solved, rfl, hd'⟩⟩)
      fun e d' hd' => ⟨trivial, .inr ⟨e, rfl, hd'⟩⟩
  · rcases hd' with hd' | ⟨e, he, -⟩
    · exact .inl hd'
    · cases he
  · rcases hd' with ⟨solved, he, -⟩ | ⟨e, he, hd'⟩
    · cases he
    obtain rfl := Except.error.inj he
    refine Upholds.mono (Q := Failed) ?_ fun _ _ => .inr
    cases e with
    | solverCrash text => exact upholds_afterSolverCrash hd'
    | cancelled => exact ⟨trivial, fun _ h => (by cases h), hd'⟩
    | _ => exact upholds_settle _ _ hd'

/-- The file is deleted whatever the persisting raises. -/
theorem upholds_persistRun (solved : KeySimResult F × Nat) (h : Handed solved.2 d) :
    (persistRun simulationId solved : Act F B Unit).Upholds (deliveryMay floatRepr)
      (fun _ => True) d fun _ => Accounted := by
  refine .ensuring_always (upholds_keepsFiles (A := Handed solved.2) ?_
    (keepsFiles_orTransient _ (keepsFiles_saveSuccess _ _ _)) h) fun r d' hd' => ?_
  · exact fun d dir hd _ => hd
  · refine .perform trivial fun u d'' hmay => ⟨trivial, trivial, ?_⟩
    obtain ⟨dir, -, -, rfl⟩ := hmay
    obtain ⟨p, hsolvers, hcreated, hkept⟩ := hd'
    intro p' hp' path hpath
    rw [show (⟨dir.delete solved.2, d'.solvers⟩ : Delivery F).solvers = [p] from hsolvers,
      List.mem_singleton] at hp'
    subst hp'
    obtain rfl : solved.2 = path := Option.some.inj (hcreated.symm.trans hpath)
    simp [TempDir.delete, hkept]

/-! ### The handler -/

/-- A program that is given no solved run. -/
theorem upholds_unsolved {p : Act F B α} (hops : p.AllOps fun o => keepsFiles o = true)
    (h : Unsolved d) :
    p.Upholds (deliveryMay floatRepr) (fun _ => True) d fun _ => Unsolved :=
  upholds_keepsFiles (fun _ _ hd _ => hd) hops h

theorem upholds_markedUnsolved (m : String) (key : Option SourceKey) (h : Unsolved d) :
    (do
      saveFailure simulationId m
      pure key : Act F B (Option SourceKey)).Upholds (deliveryMay floatRepr) (fun _ => True) d
      fun _ => Accounted :=
  .bind (upholds_unsolved (keepsFiles_saveFailure _ _) h)
    (fun _ _ hd' => ⟨trivial, hd'.accounted⟩) fun _ _ hd' => ⟨trivial, hd'.accounted⟩

theorem upholds_runKey (snapshot : SimulationModel) (key : AllocationKeyModel F)
    (h : Unsolved d) :
    (runKey lib simulationId delivered snapshot key : Act F B _).Upholds (deliveryMay floatRepr)
      (fun _ => True) d fun _ => Accounted := by
  refine .bind (upholds_unsolved (keepsFiles_loadSource _ _) h) (fun loaded d' hd' => ?_)
    fun _ d' hd' => ⟨trivial, hd'.accounted⟩
  cases loaded with
  | error terminal => exact ⟨trivial, hd'.accounted⟩
  | ok raw =>
      simp only []
      cases tooLarge raw.C.rows raw.C.cols
          (keyInputOf snapshot.source key).iterations.length with
      | some oversize =>
          exact upholds_markedUnsolved _ _ hd'
      | none =>
          refine .bind (upholds_solveRun snapshot _ raw hd') (fun solved d'' hd'' => ?_)
            fun e d'' hd'' => ⟨trivial, ?_⟩
          · rcases hd'' with ⟨solved', hsolved, hhanded⟩ | ⟨hnone, haccounted⟩
            · obtain rfl := Except.ok.inj hsolved
              exact .bind (upholds_persistRun solved' hhanded)
                (fun _ d₃ hd₃ => ⟨trivial, hd₃⟩) fun _ d₃ hd₃ => ⟨trivial, hd₃⟩
            · cases solved with
              | error terminal => exact ⟨trivial, haccounted⟩
              | ok solved => exact absurd rfl (hnone solved)
          · rcases hd'' with ⟨solved', hsolved, -⟩ | ⟨-, haccounted⟩
            · cases hsolved
            · exact haccounted

theorem upholds_process (h : Unsolved d) :
    (process lib simulationId delivered : Act F B _).Upholds (deliveryMay floatRepr)
      (fun _ => True) d fun _ => Accounted := by
  refine .bind (upholds_unsolved (.ensuring (.perform rfl) (.perform rfl)) h)
    (fun snapshot d' hd' => ?_) fun _ d' hd' => ⟨trivial, hd'.accounted⟩
  cases snapshot with
  | none => exact ⟨trivial, hd'.accounted⟩
  | some snapshot =>
      simp only []
      by_cases hstatus : snapshot.status = .pending
      · simp only [hstatus, ne_eq, not_true_eq_false, if_false]
        split
        · exact upholds_markedUnsolved _ _ hd'
        · refine .bind (upholds_unsolved (keepsFiles_orTransient _
            (.ensuring (.perform rfl) (.perform rfl))) hd') (fun key d'' hd'' => ?_)
            fun _ d'' hd'' => ⟨trivial, hd''.accounted⟩
          cases key with
          | none => exact upholds_markedUnsolved _ _ hd''
          | some key => exact upholds_runKey snapshot key hd''
      · simp only [hstatus, ne_eq, not_false_eq_true, if_true]
        exact ⟨trivial, hd'.accounted⟩

/-- However the delivery ends. -/
theorem upholds_handleMessage (h : Unsolved d) :
    (handleMessage lib simulationId delivered : Act F B Unit).Upholds (deliveryMay floatRepr)
      (fun _ => True) d fun _ => Accounted := by
  have hreply : ∀ {d' : Delivery F} {p : Act F B Unit},
      (p.AllOps fun o => keepsFiles o = true) → Accounted d' →
      p.Upholds (deliveryMay floatRepr) (fun _ => True) d' fun _ => Accounted :=
    fun hops hd' => upholds_keepsFiles stable_accounted hops hd'
  refine .andThen (.ensuring_always (upholds_process h) fun r d' hd' =>
    (hreply (p := await .stopHeartbeat) (.perform rfl) hd').mono
      fun _ d'' hd'' => ⟨trivial, hd''⟩) fun outcome d' hd' => ?_
  cases outcome with
  | ok storageKey =>
      refine hreply (.bind (.perform rfl) fun _ => ?_) hd'
      cases storageKey with
      | none => trivial
      | some key => exact .perform rfl
  | error e =>
      cases e with
      | transientError text => exact hreply (.perform rfl) hd'
      | cancelled => exact ⟨trivial, hd'⟩
      | _ => exact hreply (.bind (keepsFiles_saveFailure _ _) fun _ => .perform rfl) hd'

end Handler

/-! ## Deliveries -/

variable [PyFloat F]

/-- A delivery leaves a series file exactly where a solver process abandoned it:
it died, or its result was not received, while the file was its own. -/
theorem series_files_removed_iff (floatRepr : F → List Char) (lib : Libraries F B L)
    (simulationId : Nat) (delivered : Option Nat) (dir : TempDir) (outcome : Except Exn Unit)
    (d : Delivery F)
    (hends : (handleMessage lib simulationId delivered).Ends (deliveryMay floatRepr) ⟨dir, []⟩
      outcome d) :
    d.Tidy ↔ ∀ p ∈ d.solvers, ¬ p.Abandons :=
  ((upholds_handleMessage (d := ⟨dir, []⟩) rfl).ends hends).tidy_iff

/-! ## Two solver processes -/

/-- Deliveries of a small run. The solver process is killed when it has just
created its file, or cannot open the file. -/
def step (killed : Bool) (o : Op ℚ Unit) (s : World ℚ Unit × Delivery ℚ) :
    Option (Except Exn o.Resp × World ℚ Unit × Delivery ℚ) :=
  match o with
  | .runSimulation key raw =>
    match runSimulation key raw.C raw.VA raw.consumerNames with
    | .error _ => none
    | .ok _ =>
      let path := s.2.dir.next
      if killed then
        some (.error (.brokenExecutor "terminated abruptly"), s.1,
          { dir := s.2.dir.create, solvers := s.2.solvers ++ [⟨some path, false, false, none⟩] })
      else
        let raised : Exn := .other "Too many open files"
        some (.error raised, s.1,
          { dir := s.2.dir.create.delete path
            solvers := s.2.solvers ++ [⟨some path, true, false, some (.error raised)⟩] })
  | .remove _ => none
  | o => (answer 0 o s.1).map fun x => (x.1, x.2, s.2)

/-- The delivery as it begins. -/
def begun : World ℚ Unit × Delivery ℚ :=
  (smallWorld (some smallRow) 1 "d", ⟨⟨fun _ => none, 0⟩, []⟩)

theorem TempDir.elsewhere_refl (dir : TempDir) (own : Nat → Prop) : dir.Elsewhere own dir :=
  { kept := fun _ _ => rfl
    next := Nat.le_refl _ }

theorem deliveryMay_of_step {floatRepr : ℚ → List Char} {killed : Bool} (o : Op ℚ Unit)
    (s : World ℚ Unit × Delivery ℚ) (r : Except Exn o.Resp) (s' : World ℚ Unit × Delivery ℚ)
    (hstep : step killed o s = some (r, s')) : deliveryMay floatRepr o s.2 r s'.2 := by
  refine ⟨s.2.dir, TempDir.elsewhere_refl _ _, ?_⟩
  cases o with
  | runSimulation key raw =>
      simp only [step] at hstep
      cases hrun : runSimulation key raw.C raw.VA raw.consumerNames with
      | error e => simp [hrun] at hstep
      | ok result =>
          have hsimulated : solverMay (.simulate key raw) ⟨s.2.dir, .fresh⟩ (.ok result)
              ⟨s.2.dir, .fresh⟩ :=
            ⟨_, TempDir.elsewhere_refl _ _, rfl, .inl (by rw [hrun]; rfl)⟩
          have hcreated : solverMay (F := ℚ) .mkstemp ⟨s.2.dir, .fresh⟩ (.ok s.2.dir.next)
              ⟨s.2.dir.create, ⟨some s.2.dir.next, false, false, none⟩⟩ :=
            ⟨_, TempDir.elsewhere_refl _ _, .inl ⟨rfl, rfl⟩⟩
          cases killed with
          | true =>
              simp only [hrun, if_true, Option.some.injEq, Prod.mk.injEq] at hstep
              obtain ⟨rfl, rfl⟩ := hstep
              refine .broken (s := ⟨s.2.dir.create, ⟨some s.2.dir.next, false, false, none⟩⟩) _ ?_
              exact .inr ⟨_, _, hsimulated, .inr ⟨_, _, hcreated, .inl rfl⟩⟩
          | false =>
              simp only [hrun, Bool.false_eq_true, if_false, Option.some.injEq,
                Prod.mk.injEq] at hstep
              obtain ⟨rfl, rfl⟩ := hstep
              refine .pool (s := ⟨s.2.dir.create.delete s.2.dir.next, ⟨some s.2.dir.next, true,
                false, some (.error (.other "Too many open files"))⟩⟩) ?_ rfl
              refine .inr ⟨_, _, hsimulated, .inr ⟨_, _, hcreated, ?_⟩⟩
              refine .inr ⟨.error (.other "Too many open files"), _,
                ⟨_, TempDir.elsewhere_refl _ _, rfl, .inr ⟨_, rfl⟩⟩, ?_⟩
              refine .inr ⟨.ok (), ⟨s.2.dir.create.delete s.2.dir.next, ⟨some s.2.dir.next, true,
                false, none⟩⟩, ⟨_, TempDir.elsewhere_refl _ _, rfl, ?_⟩, ?_⟩
              · simp
              · exact .inr ⟨.ok (), _, ⟨_, TempDir.elsewhere_refl _ _, .inl ⟨rfl, rfl⟩⟩, rfl⟩
  | remove => cases hstep
  | _ =>
      simp only [step, Option.map_eq_some_iff] at hstep
      obtain ⟨x, -, hx⟩ := hstep
      obtain ⟨-, rfl⟩ := Prod.mk.inj hx
      rfl

/-- A delivery whose solver process cannot open its file: it has deleted it, and
the delivery leaves none. -/
theorem series_files_removed_unwritable :
    ∃ outcome d, (handleMessage smallLib 1 (some 1)).Ends
        (deliveryMay fun q : ℚ => (toString q).toList) ⟨⟨fun _ => none, 0⟩, []⟩ outcome d ∧ d.Owns 0 ∧ d.Tidy := by
  have hvalues : ((handleMessage smallLib 1 (some 1)).run (step false) begun).map
      (fun x => x.2.2.solvers.map fun p => (p.created, p.removed)) = some [(some 0, true)] := by
    decide +kernel
  obtain ⟨⟨outcome, w, d⟩, hrun, hsolvers⟩ := Option.map_eq_some_iff.1 hvalues
  obtain ⟨p, hone, hp⟩ := List.map_eq_singleton_iff.1 hsolvers
  obtain ⟨hcreated, hremoved⟩ := Prod.mk.inj hp
  have hends : (handleMessage smallLib 1 (some 1)).Ends
      (deliveryMay fun q : ℚ => (toString q).toList) ⟨⟨fun _ => none, 0⟩, []⟩ outcome d :=
    Ends.of_run Prod.snd deliveryMay_of_step hrun
  refine ⟨outcome, d, hends, ⟨p, by rw [hone]; exact List.mem_singleton_self p, hcreated⟩, ?_⟩
  refine (series_files_removed_iff _ smallLib 1 (some 1) _ outcome d hends).2
    fun p' hp' habandons => ?_
  rw [hone, List.mem_singleton] at hp'
  subst hp'
  exact Bool.false_ne_true (habandons.2.1.symm.trans hremoved)

/-- A delivery whose solver process is killed when it has just created its file:
the message is handed back, and the file stays. -/
theorem killed_solver_leaves_file :
    ∃ outcome d, (handleMessage smallLib 1 (some 1)).Ends
        (deliveryMay fun q : ℚ => (toString q).toList) ⟨⟨fun _ => none, 0⟩, []⟩ outcome d ∧
      d.Owns 0 ∧ d.dir.content 0 = some [] ∧ ¬ d.Tidy := by
  have hvalues : ((handleMessage smallLib 1 (some 1)).run (step true) begun).map
      (fun x => (x.2.2.dir.content 0, x.2.2.solvers.map (·.created))) =
      some (some [], [some 0]) := by
    decide +kernel
  obtain ⟨⟨outcome, w, d⟩, hrun, hleft⟩ := Option.map_eq_some_iff.1 hvalues
  obtain ⟨hcontent, hsolvers⟩ := Prod.mk.inj hleft
  obtain ⟨p, hone, hcreated⟩ := List.map_eq_singleton_iff.1 hsolvers
  have howns : d.Owns 0 := ⟨p, by rw [hone]; exact List.mem_singleton_self p, hcreated⟩
  refine ⟨outcome, d, Ends.of_run Prod.snd deliveryMay_of_step hrun, howns, hcontent,
    fun htidy => ?_⟩
  have hnone := htidy 0 howns
  rw [show d.dir.content 0 = some [] from hcontent] at hnone
  cases hnone

end SimulationKey.Theorems.SeriesFiles
