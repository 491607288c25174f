import SimulationKey.Backend.Runs
import SimulationKey.Kit.Interrupted

/-!
# The audit trail

What the operations on simulations leave in the committed audit log. A start and
a deletion stage their entry on the request's CRM session, which nothing commits;
the mark of a failed publish and the two outcomes commit one of their own.

* **runs** — `Operation` is what a request or the worker does, each run to its
  end with `May`: any fault anywhere, but that an audit insert goes in. A
  `Sequence` hands on the log and nothing else, so that its operations may be
  about different simulations.
* **parts** — an operation takes effect by a commit on the local database; a
  start whose publish fails does so twice (`Operation.parts`).
* **proof** — `At` is where a run has come to; `Claimed` is how the transaction of
  an outcome ends, `Settled` what its session leaves, `Open` a request that still
  holds its entry.
-/

namespace SimulationKey.Theorems.AuditTrail

open Kit Kit.Prog

variable {F B L : Type}

/-! ## Operations -/

inductive Operation (F B : Type) where
  | startSimulation (newId : Nat) (uuid : Uuid) (req : SimulateRequest) (file : UploadFile B)
      (community : Nat)
  | startSimulationFromCrm (newId : Nat) (req : SimulateFromCrmRequest) (community : Nat)
  | deleteSimulation (idSimulation community : Nat)
  | markFailedToQueue (simulationId : Nat) (reason : String)
  | saveSuccess (simulationId : Nat) (result : KeySimResult F) (timeseriesPath : Nat)
  | saveFailure (simulationId : Nat) (errorMessage : String)

/-- One of an operation's effects: the session whose commit makes it, and the entry due. -/
structure Part where
  session : SessionKind
  action : String
  entityId : Nat

def Part.isEntry (part : Part) (entry : AuditEntry) : Bool :=
  entry.payload.action = part.action && entry.entityId = part.entityId

namespace Operation

def program [PyFloat F] (lib : Libraries F B L) : Operation F B → Act F B Unit
  | startSimulation newId uuid req file community =>
    answered (SimulationKey.startSimulation lib newId uuid req file community)
  | startSimulationFromCrm newId req community =>
    answered (SimulationKey.startSimulationFromCrm newId req community)
  | deleteSimulation idSimulation community =>
    answered (SimulationKey.deleteSimulation idSimulation community)
  | markFailedToQueue simulationId reason => SimulationKey.markFailedToQueue simulationId reason
  | saveSuccess simulationId result path => SimulationKey.saveSuccess simulationId result path
  | saveFailure simulationId errorMessage => SimulationKey.saveFailure simulationId errorMessage

/-- A start creates the row, and marks it when its publish fails. -/
def parts : Operation F B → List Part
  | startSimulation id .. | startSimulationFromCrm id .. =>
    [⟨.request, "simulation_key.simulation.created", id⟩,
      ⟨.own, "simulation_key.simulation.queue_failed", id⟩]
  | deleteSimulation id _ => [⟨.request, "simulation_key.simulation.deleted", id⟩]
  | markFailedToQueue id _ => [⟨.own, "simulation_key.simulation.queue_failed", id⟩]
  | saveSuccess id .. => [⟨.own, "simulation_key.simulation.succeeded", id⟩]
  | saveFailure id _ => [⟨.own, "simulation_key.simulation.failed", id⟩]

end Operation

/-! ## Runs -/

/-- What has been performed, and what the outside made of it. -/
abbrev Trace (F B : Type) : Type := List (Op F B × Choice)

/-- The operation has its effect. -/
def lands : Choice → Bool
  | .ok | .lost _ => true
  | .fail _ | .swallowed => false

/-- A commit of the session on the local database. -/
def commits (s : SessionKind) : Op F B × Choice → Bool
  | (.commitLocal s', choice) => s' = s && lands choice
  | _ => false

/-- A fault between the commit of an outcome and that of its audit entry. -/
def cuts : Op F B × Choice → Bool
  | (.commitLocal .own, choice) | (.closeLocal .own, choice) | (.logAudit .own _, choice) =>
    choice ≠ .ok
  | (.commitCrm .own, choice) => !lands choice
  | _ => false

def inserts : Op F B → Bool
  | .logAudit .. => true
  | _ => false

section Runs

variable [PyFloat F]

/-- Task `t` performs `o`; an audit insert goes in. -/
def May (t : Nat) (o : Op F B) (s : World F B × Trace F B) (r : Except Exn o.Resp)
    (s' : World F B × Trace F B) : Prop :=
  ∃ choice, exec choice t o s.1 = some (r, s'.1) ∧ s'.2 = s.2 ++ [(o, choice)] ∧
    (inserts o = true → lands choice = true)

/-- An operation of a sequence, with the task that ran it and the log before and after. -/
structure Done (F B : Type) where
  task : Nat
  operation : Operation F B
  trace : Trace F B
  before : AuditLog
  after : AuditLog

namespace Done

variable (x : Done F B)

/-- It ran to its end, its sessions closed. -/
def Ran (lib : Libraries F B L) : Prop :=
  ∃ w w' r, w.audit = x.before ∧ w'.audit = x.after ∧
    (x.operation.program lib).Ends (May x.task) (w, []) r (w', x.trace)

omit [PyFloat F] in
def TookEffect (part : Part) : Prop := x.trace.any (commits part.session) = true

/-- The log has one entry more for the part. -/
def Recorded (part : Part) : Prop :=
  x.after.entries.countP part.isEntry = x.before.entries.countP part.isEntry + 1

end Done

/-- Operations one after the other. -/
inductive Sequence (lib : Libraries F B L) : AuditLog → List (Done F B) → AuditLog → Prop where
  | nil (log : AuditLog) : Sequence lib log [] log
  | cons {x : Done F B} {rest : List (Done F B)} {log : AuditLog} (ran : x.Ran lib)
      (later : Sequence lib x.after rest log) : Sequence lib x.before (x :: rest) log

end Runs

/-! ## Steps -/

/-- The operations on which an entry or a commit depends. -/
def counts : Op F B → Bool
  | .commitLocal .own | .closeLocal .own | .logAudit .. | .commitCrm _ | .closeCrm _ => true
  | _ => false

/-- The log, whether an outcome has been committed, and whether a fault has cut it off
from its entry. -/
structure At (log : AuditLog) (own cut : Bool) (s : World F B × Trace F B) : Prop where
  audit : s.1.audit = log
  own : s.2.any (commits .own) = own
  cut : s.2.any cuts = cut

section Steps

variable [PyFloat F] {t : Nat} {log : AuditLog} {own cut : Bool} {s s' : World F B × Trace F B}

omit [PyFloat F] in
theorem At.move {log' : AuditLog} {o : Op F B} {choice : Choice} (h : At log own cut s)
    (haudit : s'.1.audit = log') (htrace : s'.2 = s.2 ++ [(o, choice)]) :
    At log' (own || commits .own (o, choice)) (cut || cuts (o, choice)) s' := by
  refine ⟨haudit, ?_, ?_⟩
  · rw [htrace, List.any_append, h.own]
    simp
  · rw [htrace, List.any_append, h.cut]
    simp

/-- An operation about something else. -/
theorem at_other {o : Op F B} {r : Except Exn o.Resp} (ho : counts o = false)
    (h : At log own cut s) (hmay : May t o s r s') : At log own cut s' := by
  obtain ⟨choice, hexec, htrace, -⟩ := hmay
  have haudit : s'.1.audit = s.1.audit := by
    have heffect := exec_effect hexec
    generalize s'.1 = w' at heffect
    cases heffect with
    | audit hmove => cases hmove <;> cases ho
    | none | db | storage | nats | files | finished => rfl
  have hcommits : commits .own (o, choice) = false := by
    cases o with
    | commitLocal s =>
        cases s with
        | request => rfl
        | own => cases ho
    | _ => rfl
  have hcuts : cuts (o, choice) = false := by
    cases o with
    | commitLocal s | closeLocal s | commitCrm s =>
        cases s with
        | request => rfl
        | own => cases ho
    | logAudit s entry => cases ho
    | _ => rfl
  simpa [hcommits, hcuts] using h.move (haudit.trans h.audit) htrace

/-- How an operation that counts can end. -/
theorem comes_of_may {o : Op F B} {r : Except Exn o.Resp} (ho : counts o = true)
    (hmay : May t o s r s') :
    (answer t o s.1 = some (r, s'.1) ∧ s'.2 = s.2 ++ [(o, .ok)]) ∨
      (∃ e r₀, r = .error e ∧ answer t o s.1 = some (r₀, s'.1) ∧ s'.2 = s.2 ++ [(o, .lost e)]) ∨
      ∃ e, r = .error e ∧ o.closes = false ∧ inserts o = false ∧ s'.1 = s.1 ∧
        s'.2 = s.2 ++ [(o, .fail e)] := by
  obtain ⟨choice, hexec, htrace, hinserts⟩ := hmay
  cases choice with
  | ok => exact Or.inl ⟨hexec, htrace⟩
  | fail e =>
      simp only [exec] at hexec
      split_ifs at hexec with hfails
      simp only [Bool.and_eq_true, Bool.not_eq_true'] at hfails
      obtain ⟨hr, hw⟩ := Prod.mk.inj (Option.some.inj hexec)
      refine Or.inr (Or.inr ⟨e, hr.symm, hfails.2, ?_, hw.symm, htrace⟩)
      by_contra hinsert
      exact Bool.false_ne_true (hinserts (by simpa using hinsert))
  | lost e =>
      simp only [exec] at hexec
      split_ifs at hexec
      obtain ⟨x, hx, heq⟩ := Option.map_eq_some_iff.mp hexec
      obtain ⟨hr, hw⟩ := Prod.mk.inj heq
      exact Or.inr (Or.inl ⟨e, x.1, hr.symm, hw ▸ hx, htrace⟩)
  | swallowed =>
      -- only an audit insert could be dropped, and it goes in
      cases o with
      | logAudit s entry => exact absurd (hinserts rfl) Bool.false_ne_true
      | commitLocal | closeLocal | commitCrm | closeCrm => simp [exec, Op.swallows] at hexec
      | _ => cases ho

omit [PyFloat F] in
/-- What an operation answers, and where it leaves the log. -/
theorem answer_inj {r r₀ : Except Exn Unit} {w' w₀ : World F B}
    (h : some (r₀, w₀) = some (r, w')) : r = r₀ ∧ w'.audit = w₀.audit := by
  obtain ⟨rfl, rfl⟩ := Prod.mk.inj (Option.some.inj h)
  exact ⟨rfl, rfl⟩

/-- The commit of an outcome: it goes through, or its entry is cut off. -/
theorem at_commitOwn {r : Except Exn Unit} (h : At log false false s)
    (hmay : May t (.commitLocal .own) s r s') :
    (r = .ok () ∧ At log true false s') ∨ ((∃ e, r = .error e) ∧ ∃ own, At log own true s') := by
  rcases comes_of_may rfl hmay with ⟨hgo, htrace⟩ | ⟨e, r₀, hr, hgo, htrace⟩ |
    ⟨e, hr, -, -, hw, htrace⟩
  · obtain ⟨hr, haudit⟩ := answer_inj hgo
    exact Or.inl ⟨hr, h.move (haudit.trans h.audit) htrace⟩
  · obtain ⟨-, haudit⟩ := answer_inj hgo
    exact Or.inr ⟨⟨e, hr⟩, _, h.move (haudit.trans h.audit) htrace⟩
  · exact Or.inr ⟨⟨e, hr⟩, _, h.move (hw ▸ h.audit) htrace⟩

theorem at_closeOwn {r : Except Exn Unit} (h : At log own cut s)
    (hmay : May t (.closeLocal .own) s r s') :
    (r = .ok () ∧ At log own cut s') ∨ ((∃ e, r = .error e) ∧ At log own true s') := by
  rcases comes_of_may rfl hmay with ⟨hgo, htrace⟩ | ⟨e, r₀, hr, hgo, htrace⟩ | ⟨e, -, hcloses, -⟩
  · obtain ⟨hr, haudit⟩ := answer_inj hgo
    exact Or.inl ⟨hr, by simpa [commits, cuts] using h.move (haudit.trans h.audit) htrace⟩
  · obtain ⟨-, haudit⟩ := answer_inj hgo
    exact Or.inr ⟨⟨e, hr⟩, by simpa [commits, cuts] using h.move (haudit.trans h.audit) htrace⟩
  · cases hcloses

/-- The entry is staged; a cancellation may follow. -/
theorem at_logAudit {kind : SessionKind} {entry : AuditEntry} {r : Except Exn Unit}
    (h : At log own cut s) (hmay : May t (.logAudit kind entry) s r s') :
    (r = .ok () ∧ At (log.stage ⟨t, kind⟩ entry) own cut s') ∨
      (∃ e, r = .error e) ∧
        At (log.stage ⟨t, kind⟩ entry) own (cut || decide (kind = .own)) s' := by
  have hstage : s.1.audit.stage ⟨t, kind⟩ entry = log.stage ⟨t, kind⟩ entry := by rw [h.audit]
  rcases comes_of_may rfl hmay with ⟨hgo, htrace⟩ | ⟨e, r₀, hr, hgo, htrace⟩ |
    ⟨e, -, -, hinserts, -⟩
  · obtain ⟨hr, haudit⟩ := answer_inj hgo
    refine Or.inl ⟨hr, ?_⟩
    cases kind <;> simpa [commits, cuts] using h.move (haudit.trans hstage) htrace
  · obtain ⟨-, haudit⟩ := answer_inj hgo
    refine Or.inr ⟨⟨e, hr⟩, ?_⟩
    cases kind <;> simpa [commits, cuts] using h.move (haudit.trans hstage) htrace
  · cases hinserts

/-- The commit of an entry: whatever the caller is told, it has its effect or cuts the entry
off. -/
theorem at_commitCrm {r : Except Exn Unit} (h : At log own cut s)
    (hmay : May t (.commitCrm .own) s r s') :
    At (log.commit ⟨t, .own⟩) own cut s' ∨ (∃ e, r = .error e) ∧ At log own true s' := by
  have hcommit : s.1.audit.commit ⟨t, .own⟩ = log.commit ⟨t, .own⟩ := by rw [h.audit]
  rcases comes_of_may rfl hmay with ⟨hgo, htrace⟩ | ⟨e, r₀, -, hgo, htrace⟩ |
    ⟨e, hr, -, -, hw, htrace⟩
  · obtain ⟨-, haudit⟩ := answer_inj hgo
    exact Or.inl (by simpa [commits, cuts, lands] using h.move (haudit.trans hcommit) htrace)
  · obtain ⟨-, haudit⟩ := answer_inj hgo
    exact Or.inl (by simpa [commits, cuts, lands] using h.move (haudit.trans hcommit) htrace)
  · refine Or.inr ⟨⟨e, hr⟩, ?_⟩
    simpa [commits, cuts, lands] using h.move (hw ▸ h.audit) htrace

/-- A CRM session that closes drops what it has staged. -/
theorem at_closeCrm {kind : SessionKind} {r : Except Exn Unit} (h : At log own cut s)
    (hmay : May t (.closeCrm kind) s r s') : At (log.rollback ⟨t, kind⟩) own cut s' := by
  have hrollback : s.1.audit.rollback ⟨t, kind⟩ = log.rollback ⟨t, kind⟩ := by rw [h.audit]
  rcases comes_of_may rfl hmay with ⟨hgo, htrace⟩ | ⟨e, r₀, -, hgo, htrace⟩ | ⟨e, -, hcloses, -⟩
  · obtain ⟨-, haudit⟩ := answer_inj hgo
    simpa [commits, cuts] using h.move (haudit.trans hrollback) htrace
  · obtain ⟨-, haudit⟩ := answer_inj hgo
    simpa [commits, cuts] using h.move (haudit.trans hrollback) htrace
  · cases hcloses

end Steps

/-! ## Entries -/

section Entries

variable {t : Nat} {log : AuditLog}

/-- The log with committed entries more. -/
def extended (log : AuditLog) (added : List AuditEntry) : AuditLog :=
  { log with entries := log.entries ++ added }

/-- No entry of the short-lived session is staged. -/
def Clear (t : Nat) (log : AuditLog) : Prop := ∀ x ∈ log.staged, x.1 ≠ ⟨t, .own⟩

theorem Clear.filter (h : Clear t log) : log.staged.filter (·.1 ≠ ⟨t, .own⟩) = log.staged := by
  refine List.filter_eq_self.mpr fun x hx => ?_
  simpa using h x hx

theorem Clear.rollback (h : Clear t log) : log.rollback ⟨t, .own⟩ = log := by
  rw [AuditLog.rollback, h.filter]

/-- An entry staged and dropped. -/
theorem Clear.stage_rollback (h : Clear t log) (entry : AuditEntry) :
    (log.stage ⟨t, .own⟩ entry).rollback ⟨t, .own⟩ = log := by
  rw [← h.rollback]
  simp [AuditLog.stage, AuditLog.rollback, List.filter_append]

/-- An entry staged and committed. -/
theorem Clear.stage_commit_rollback (h : Clear t log) (entry : AuditEntry) :
    ((log.stage ⟨t, .own⟩ entry).commit ⟨t, .own⟩).rollback ⟨t, .own⟩ =
      extended log [entry] := by
  have hmine : log.staged.filter (·.1 = ⟨t, .own⟩) = [] := by
    refine List.filter_eq_nil_iff.mpr fun x hx => ?_
    simpa using h x hx
  have hothers := h.filter
  simp only [ne_eq, decide_not] at hothers
  simp [AuditLog.stage, AuditLog.commit, AuditLog.rollback, extended, List.filter_append, hmine,
    hothers]

end Entries

/-! ## Programs -/

/-- The outcome's commit, if there is one, has its entry unless a fault cut it off. -/
def Settled (part : Part) (log : AuditLog) (s : World F B × Trace F B) : Prop :=
  ∃ added own cut, At (extended log added) own cut s ∧
    (added = [] ∧ (own = true → cut = true) ∨
      (∃ entry, part.isEntry entry = true ∧ added = [entry]) ∧ cut = false)

/-- How the transaction of an outcome can end. -/
def Claimed (log : AuditLog) : Except Exn (Option Nat) → World F B × Trace F B → Prop
  | .ok (some _), s => At log true false s
  | .ok none, s => At log false false s
  | .error _, s => At log false false s ∨ ∃ own, At log own true s

section Programs

variable [PyFloat F] {t : Nat} {log : AuditLog} {own cut : Bool} {part : Part}
  {s : World F B × Trace F B} {α : Type}

omit [PyFloat F] in
theorem settled_of_quiet (h : At log false cut s) : Settled part log s :=
  ⟨[], false, cut, by simpa [extended] using h, Or.inl ⟨rfl, fun h => (by cases h)⟩⟩

omit [PyFloat F] in
theorem settled_of_cut (h : At log own true s) : Settled part log s :=
  ⟨[], own, true, by simpa [extended] using h, Or.inl ⟨rfl, fun _ => rfl⟩⟩

/-- A program about something else. -/
theorem upholds_other {p : Act F B α} (hops : p.AllOps fun o => counts o = false)
    (h : At log own cut s) :
    p.Upholds (May t) (fun _ => True) s fun _ => At log own cut :=
  .of_allOps (hops.mono fun _ ho _ _ _ hat hmay => at_other ho hat hmay) (fun _ _ => trivial) h

/-- The transaction of an outcome: its session closes after it. -/
theorem upholds_withLocalSession {body : Act F B (Option Nat)}
    (hbody : body.Upholds (May t) (fun _ => True) s (Claimed log)) :
    (withLocalSession .own body).Upholds (May t) (fun _ => True) s (Claimed log) := by
  refine .ensuring hbody fun r s' hr => .perform trivial fun u s'' hmay => ?_
  have hcut : ∀ {own cut}, At log own cut s' → ∀ e, u = .error e →
      Claimed log (.error e : Except Exn (Option Nat)) s'' := by
    intro own cut hat e hu
    rcases at_closeOwn hat hmay with ⟨hok, -⟩ | ⟨-, hat'⟩
    · rw [hok] at hu
      cases hu
    · exact Or.inr ⟨own, hat'⟩
  have hkeep : ∀ {own cut}, At log own cut s' → u = .ok () → At log own cut s'' := by
    intro own cut hat hu
    rcases at_closeOwn hat hmay with ⟨-, hat'⟩ | ⟨⟨e, he⟩, -⟩
    · exact hat'
    · rw [he] at hu
      cases hu
  cases r with
  | ok committed =>
      cases committed with
      | none => exact ⟨trivial, trivial, hkeep hr, hcut hr⟩
      | some idCommunity => exact ⟨trivial, trivial, hkeep hr, hcut hr⟩
  | error e =>
      rcases hr with hr | ⟨own, hr⟩
      · exact ⟨trivial, trivial, fun hu => Or.inl (hkeep hr hu), hcut hr⟩
      · exact ⟨trivial, trivial, fun hu => Or.inr ⟨own, hkeep hr hu⟩, hcut hr⟩

/-- The commit that ends the transaction of an outcome. -/
theorem upholds_commitOwn (idCommunity : Nat) (h : At log false false s) :
    (do
      await (.commitLocal .own)
      pure (some idCommunity) : Act F B (Option Nat)).Upholds (May t) (fun _ => True) s
      (Claimed log) := by
  refine .bind (Q := fun r s' => (r = .ok () ∧ At log true false s') ∨
    (∃ e, r = .error e) ∧ ∃ own, At log own true s')
    (.perform trivial fun r s' hmay => ⟨trivial, at_commitOwn h hmay⟩)
    (fun u s' hs' => ⟨trivial, ?_⟩) fun e s' hs' => ⟨trivial, ?_⟩
  · rcases hs' with ⟨-, hat⟩ | ⟨⟨e, he⟩, -⟩
    · exact hat
    · cases he
  · rcases hs' with ⟨he, -⟩ | ⟨-, hat⟩
    · cases he
    · exact Or.inr hat

/-- What precedes that commit in its transaction. -/
theorem upholds_bind_other {β : Type} {p : Act F B β} {f : β → Act F B (Option Nat)}
    (hops : p.AllOps fun o => counts o = false) (h : At log false false s)
    (hf : ∀ a s', At log false false s' →
      (f a).Upholds (May t) (fun _ => True) s' (Claimed log)) :
    (p >>= f).Upholds (May t) (fun _ => True) s (Claimed log) :=
  .bind (upholds_other hops h) (fun a s' hs' => hf a s' hs')
    fun _ _ hs' => ⟨trivial, Or.inl hs'⟩

theorem upholds_claimAndCommit {values : SimulationModel → RowValues}
    {rest : SimulationModel → Act F B Unit}
    (hrest : ∀ row, (rest row).AllOps fun o => counts o = false) (h : At log false false s) :
    (claimAndCommit values rest).Upholds (May t) (fun _ => True) s (Claimed log) := by
  refine upholds_withLocalSession (upholds_bind_other (.perform rfl) h fun row s' hs' => ?_)
  cases row with
  | none => exact ⟨trivial, hs'⟩
  | some row =>
      refine upholds_bind_other (.perform rfl) hs' fun rowcount s'' hs'' => ?_
      by_cases hnone : rowcount = 0
      · simp only [hnone, if_true]
        exact ⟨trivial, hs''⟩
      · simp only [hnone, if_false]
        exact upholds_bind_other (hrest row) hs'' fun _ _ => upholds_commitOwn _

/-- The entry of an outcome, in a session of its own. -/
theorem upholds_entry {entry : AuditEntry} (hclear : Clear t log)
    (hentry : part.isEntry entry = true) (h : At log true false s) :
    (withCrmSession .own (do
      await (.logAudit .own entry)
      await (.commitCrm .own)) : Act F B Unit).Upholds (May t) (fun _ => True) s
      fun _ => Settled part log := by
  -- the entry is committed, or staged and cut off
  refine .ensuring_always (Q := fun _ s' =>
    At ((log.stage ⟨t, .own⟩ entry).commit ⟨t, .own⟩) true false s' ∨
      At (log.stage ⟨t, .own⟩ entry) true true s') ?_ fun r s' hs' => ?_
  · refine .bind (Q := fun r s' => (r = .ok () ∧ At (log.stage ⟨t, .own⟩ entry) true false s') ∨
      (∃ e, r = .error e) ∧ At (log.stage ⟨t, .own⟩ entry) true true s')
      (.perform trivial fun r s' hmay => ⟨trivial, at_logAudit h hmay⟩)
      (fun u s' hs' => .perform trivial fun r s'' hmay => ⟨trivial, ?_⟩)
      fun e s' hs' => ⟨trivial, ?_⟩
    · rcases hs' with ⟨-, hat⟩ | ⟨⟨e, he⟩, -⟩
      · exact (at_commitCrm hat hmay).imp id And.right
      · cases he
    · rcases hs' with ⟨he, -⟩ | ⟨-, hat⟩
      · cases he
      · exact Or.inr hat
  · refine .perform trivial fun u s'' hmay => ⟨trivial, trivial, ?_⟩
    rcases hs' with hat | hat
    · have hat' := at_closeCrm hat hmay
      rw [hclear.stage_commit_rollback] at hat'
      exact ⟨_, _, _, hat', Or.inr ⟨⟨entry, hentry, rfl⟩, rfl⟩⟩
    · have hat' := at_closeCrm hat hmay
      rw [hclear.stage_rollback] at hat'
      exact settled_of_cut hat'

/-- What is about something else keeps an outcome settled. -/
theorem upholds_settled {p : Act F B α} (hops : p.AllOps fun o => counts o = false)
    (h : Settled part log s) :
    p.Upholds (May t) (fun _ => True) s fun _ => Settled part log := by
  obtain ⟨added, own, cut, hat, hadded⟩ := h
  exact (upholds_other hops hat).mono fun _ _ hat' => ⟨added, own, cut, hat', hadded⟩

/-- An outcome's transaction, then its record if it committed. -/
theorem upholds_outcome {p : Act F B (Option Nat)} {record : Nat → Act F B Unit}
    (hp : p.Upholds (May t) (fun _ => True) s (Claimed log))
    (hrecord : ∀ idCommunity s', At log true false s' →
      (record idCommunity).Upholds (May t) (fun _ => True) s' fun _ => Settled part log) :
    (p >>= fun
      | none => pure ()
      | some idCommunity => record idCommunity).Upholds (May t) (fun _ => True) s
      fun _ => Settled part log := by
  refine .bind hp (fun committed s' hs' => ?_) fun e s' hs' => ⟨trivial, ?_⟩
  · cases committed with
    | none => exact ⟨trivial, settled_of_quiet hs'⟩
    | some idCommunity => exact hrecord idCommunity s' hs'
  · rcases hs' with hs' | ⟨own, hs'⟩
    · exact settled_of_quiet hs'
    · exact settled_of_cut hs'

theorem upholds_announce {id idCommunity : Nat} {payload : AuditPayload}
    {hint : SimulationStatus} (hclear : Clear t log)
    (h : At log true false s) :
    (announce id idCommunity payload hint : Act F B Unit).Upholds (May t) (fun _ => True) s
      fun _ => Settled ⟨.own, payload.action, id⟩ log :=
  .bind (upholds_entry hclear (by simp [Part.isEntry]) h)
    (fun _ _ hs' => upholds_settled (.perform rfl) hs') fun _ _ hs' => ⟨trivial, hs'⟩

theorem upholds_saveSuccess (id : Nat) (result : KeySimResult F) (path : Nat)
    (hclear : Clear t log) (h : At log false false s) :
    (saveSuccess id result path : Act F B Unit).Upholds (May t) (fun _ => True) s
      fun _ => Settled ⟨.own, "simulation_key.simulation.succeeded", id⟩ log :=
  upholds_outcome
    (upholds_claimAndCommit (fun _ => .bind (.perform rfl) fun _ => .perform rfl) h)
    fun _ _ => upholds_announce hclear

theorem upholds_saveFailure (id : Nat) (errorMessage : String) (hclear : Clear t log)
    (h : At log false false s) :
    (saveFailure id errorMessage : Act F B Unit).Upholds (May t) (fun _ => True) s
      fun _ => Settled ⟨.own, "simulation_key.simulation.failed", id⟩ log :=
  upholds_outcome (upholds_claimAndCommit (fun _ => trivial) h)
    fun _ _ => upholds_announce hclear

/-- The entry a failed publish is due. -/
def queueFailed (id : Nat) : Part := ⟨.own, "simulation_key.simulation.queue_failed", id⟩

theorem upholds_markFailedToQueue (id : Nat) (reason : String) (hclear : Clear t log)
    (h : At log false false s) :
    (markFailedToQueue id reason : Act F B Unit).Upholds (May t) (fun _ => True) s
      fun _ => Settled (queueFailed id) log := by
  refine upholds_outcome (upholds_withLocalSession
    (upholds_bind_other (.perform rfl) h fun row s' hs' => ?_))
    fun _ _ => upholds_entry hclear (by simp [Part.isEntry, queueFailed, AuditPayload.action])
  cases row with
  | none => exact ⟨trivial, hs'⟩
  | some row => exact upholds_bind_other (.perform rfl) hs' fun _ _ => upholds_commitOwn _

/-- The publish goes through, or the row is marked. -/
theorem upholds_publishOrMark (id : Nat) {cleanup : Act F B Unit}
    (hcleanup : cleanup.AllOps fun o => counts o = false) (hclear : Clear t log)
    (h : At log false false s) :
    (publishOrMark id cleanup).Upholds (May t) (fun _ => True) s
      fun _ => Settled (queueFailed id) log := by
  refine .tryCatch (upholds_other (.perform rfl) h)
    (fun _ _ hs' => ⟨trivial, settled_of_quiet hs'⟩) fun e s' hs' => ?_
  by_cases he : e.isException = true
  · simp only [he, if_true]
    exact .bind (upholds_markFailedToQueue id e.text hclear hs')
      (fun _ _ hs'' => .bind (upholds_settled hcleanup hs'')
        (fun _ _ hs₃ => ⟨trivial, hs₃⟩) fun _ _ hs₃ => ⟨trivial, hs₃⟩)
      fun _ _ hs'' => ⟨trivial, hs''⟩
  · simp only [he]
    exact ⟨trivial, settled_of_quiet hs'⟩

/-! ### Requests -/

/-- While a request is open, its entries are staged on its own session. -/
def Open (t : Nat) (part : Part) (log : AuditLog) (s : World F B × Trace F B) : Prop :=
  ∃ held : AuditLog, held.entries = log.entries ∧ (∀ x ∈ held.staged, x.1 = ⟨t, .request⟩) ∧
    Settled part held s

omit [PyFloat F] in
theorem open_of_at (hclean : log.staged = []) (h : At log false cut s) : Open t part log s :=
  ⟨log, rfl, by simp [hclean], settled_of_quiet h⟩

/-- What precedes a request's entry. -/
theorem upholds_before {β : Type} {p : Act F B β} {f : β → Act F B α}
    (hclean : log.staged = []) (hops : p.AllOps fun o => counts o = false)
    (h : At log false false s)
    (hf : ∀ a s', At log false false s' →
      (f a).Upholds (May t) (fun _ => True) s' fun _ => Open t part log) :
    (p >>= f).Upholds (May t) (fun _ => True) s fun _ => Open t part log :=
  .bind (upholds_other hops h) (fun a s' hs' => hf a s' hs')
    fun _ _ hs' => ⟨trivial, open_of_at hclean hs'⟩

omit [PyFloat F] in
theorem staged_request (hclean : log.staged = []) (entry : AuditEntry) :
    ∀ x ∈ (log.stage ⟨t, .request⟩ entry).staged, x.1 = ⟨t, .request⟩ := by
  simp [AuditLog.stage, hclean]

omit [PyFloat F] in
theorem open_of_staged {entry : AuditEntry} (hclean : log.staged = [])
    (h : Settled part (log.stage ⟨t, .request⟩ entry) s) : Open t part log s :=
  ⟨log.stage ⟨t, .request⟩ entry, rfl, staged_request hclean entry, h⟩

/-- A request's entry is staged, whatever follows. -/
theorem at_requestEntry {entry : AuditEntry} {r : Except Exn Unit} {s' : World F B × Trace F B}
    (h : At log false false s) (hmay : May t (.logAudit .request entry) s r s') :
    At (log.stage ⟨t, .request⟩ entry) false false s' := by
  rcases at_logAudit h hmay with ⟨-, hat⟩ | ⟨-, hat⟩
  · exact hat
  · exact hat

/-- A request's entry, and what follows it. -/
theorem upholds_logAudit {entry : AuditEntry} {f : Unit → Act F B α} (hclean : log.staged = [])
    (h : At log false false s)
    (hf : ∀ s', Clear t (log.stage ⟨t, .request⟩ entry) →
      At (log.stage ⟨t, .request⟩ entry) false false s' →
      (f ()).Upholds (May t) (fun _ => True) s'
        fun _ => Settled part (log.stage ⟨t, .request⟩ entry)) :
    (await (.logAudit .request entry) >>= f).Upholds (May t) (fun _ => True) s
      fun _ => Open t part log := by
  refine .bind (Q := fun _ => At (log.stage ⟨t, .request⟩ entry) false false)
    (.perform trivial fun r s' hmay => ⟨trivial, at_requestEntry h hmay⟩) (fun _ s' hs' => ?_)
    fun _ s' hs' => ⟨trivial, open_of_staged hclean (settled_of_quiet hs')⟩
  refine (hf s' (fun x hx => ?_) hs').mono fun _ _ => open_of_staged hclean
  rw [staged_request hclean entry x hx]
  simp

/-- Closing a request's sessions drops what it has staged. -/
theorem upholds_answered {body : Act F B α} (hclean : log.staged = [])
    (h : body.Upholds (May t) (fun _ => True) s fun _ => Open t part log) :
    (answered body).Upholds (May t) (fun _ => True) s fun _ => Settled part log := by
  refine .bind (Q := fun _ => Settled part log) ?_ (fun _ _ hs' => ⟨trivial, hs'⟩)
    fun _ _ hs' => ⟨trivial, hs'⟩
  refine .ensuring_always (Q := fun _ => Settled part log)
    (.ensuring_always h fun r s' hs' => .perform trivial fun u s'' hmay => ⟨trivial, trivial, ?_⟩)
    fun r s' hs' => (upholds_settled (.perform rfl) hs').mono fun _ _ hs'' => ⟨trivial, hs''⟩
  obtain ⟨held, hentries, hmine, added, own, cut, hat, hadded⟩ := hs'
  have hat' := at_closeCrm hat hmay
  have hdropped : (extended held added).rollback ⟨t, .request⟩ = extended log added := by
    have hnone : held.staged.filter (·.1 ≠ ⟨t, .request⟩) = [] := by
      refine List.filter_eq_nil_iff.mpr fun x hx => ?_
      simp [hmine x hx]
    simp only [AuditLog.rollback, extended, hentries, hnone, hclean]
  rw [hdropped] at hat'
  exact ⟨added, own, cut, hat', hadded⟩

/-- The row's insertion answers the row's id. -/
theorem upholds_createSimulation (model : SimulationModel) (h : At log false false s) :
    (createSimulation model : Act F B Nat).Upholds (May t) (fun _ => True) s fun r s' =>
      At log false false s' ∧ ∀ id, r = .ok id → id = model.id := by
  refine .bind (Q := fun r s' => At log false false s' ∧ ∀ id, r = .ok id → id = model.id)
    (.perform trivial fun r s' hmay => ⟨trivial, at_other rfl h hmay, fun id hr => ?_⟩)
    (fun id s' hs' => ?_) fun e s' hs' => ⟨trivial, hs'⟩
  · obtain ⟨choice, hexec, -, -⟩ := hmay
    rw [hr] at hexec
    have hanswer := exec_ok rfl hexec
    obtain ⟨x, hx, heq⟩ := Option.map_eq_some_iff.mp hanswer
    have hid : x.1 = .ok id := congrArg Prod.fst heq
    unfold LocalDb.insert at hx
    split_ifs at hx
    · rw [← Option.some.inj hx] at hid
      cases hid
    · rw [← Option.some.inj hx] at hid
      exact (Except.ok.inj hid).symm
    · rw [← Option.some.inj hx] at hid
      cases hid
  · refine .bind (upholds_other (.perform rfl) hs'.1) (fun _ s'' hs'' => ⟨trivial, hs'', ?_⟩)
      fun e s'' hs'' => ⟨trivial, hs'', fun id hid => (by cases hid)⟩
    intro id' hid'
    rw [← Except.ok.inj hid']
    exact hs'.2 id rfl

/-- A row inserted, its entry staged, its event published. -/
theorem upholds_created {p : Act F B Nat} {id : Nat} {entry : Nat → AuditEntry}
    {cleanup : Act F B Unit} (hclean : log.staged = [])
    (hp : p.Upholds (May t) (fun _ => True) s fun r s' =>
      At log false false s' ∧ ∀ id', r = .ok id' → id' = id)
    (hcleanup : cleanup.AllOps fun o => counts o = false)
    (response : Nat → SimulateResponse) :
    (do
      let simulationId ← p
      await (.logAudit .request (entry simulationId))
      publishOrMark simulationId cleanup
      pure (response simulationId)).Upholds (May t) (fun _ => True) s
      fun _ => Open t (queueFailed id) log := by
  refine .bind hp (fun id' s' hs' => ?_) fun e s' hs' => ⟨trivial, open_of_at hclean hs'.1⟩
  obtain rfl := hs'.2 id' rfl
  exact upholds_logAudit hclean hs'.1 fun s'' hclear hs'' =>
    .bind (upholds_publishOrMark id' hcleanup hclear hs'') (fun _ _ hs₃ => ⟨trivial, hs₃⟩)
      fun _ _ hs₃ => ⟨trivial, hs₃⟩

/-- A refusal. -/
theorem upholds_reject (hclean : log.staged = []) (error : ApiError) (statusCode : Nat)
    (h : At log false false s) :
    (reject error statusCode : Act F B α).Upholds (May t) (fun _ => True) s
      fun _ => Open t part log :=
  ⟨trivial, open_of_at hclean h⟩

omit [PyFloat F] in
theorem other_onException {body : Act F B α} {handler : Exn → Act F B α}
    (hbody : body.AllOps fun o => counts o = false)
    (hhandler : ∀ e, (handler e).AllOps fun o => counts o = false) :
    (onException body handler).AllOps fun o => counts o = false := by
  refine .tryCatch hbody fun e => ?_
  by_cases he : e.isException = true
  · simp only [he, if_true]
    exact hhandler e
  · simp only [he]
    trivial

omit [PyFloat F] in
theorem other_readWithinCap (lib : Libraries F B L) (file : UploadFile B) :
    (readWithinCap lib file).AllOps fun o => counts o = false := by
  refine .bind (.perform rfl) fun content => ?_
  split_ifs
  · trivial
  · trivial
  · trivial

theorem upholds_startSimulation (lib : Libraries F B L) (id : Nat) (uuid : Uuid)
    (req : SimulateRequest) (file : UploadFile B) (community : Nat) (hclean : log.staged = [])
    (h : At log false false s) :
    (startSimulation lib id uuid req file community).Upholds (May t) (fun _ => True) s
      fun _ => Open t (queueFailed id) log := by
  refine upholds_before hclean (.perform rfl) h fun key s₁ h₁ => ?_
  cases key with
  | none => exact upholds_reject hclean _ _ h₁
  | some key =>
      refine upholds_before hclean (other_readWithinCap lib file) h₁ fun content s₂ h₂ => ?_
      split_ifs
      · exact upholds_reject hclean _ _ h₂
      · refine upholds_before hclean (other_onException (.perform rfl) fun _ => trivial) h₂
          fun _ s₃ h₃ => upholds_created hclean ?_ (by exact .perform rfl) _
        -- a failed insertion deletes the upload, and there is no entry to write
        refine .tryCatch (upholds_createSimulation _ h₃) (fun _ _ hs' => ⟨trivial, hs'⟩)
          fun e s' hs' => ?_
        by_cases he : e.isException = true
        · simp only [he, if_true]
          exact .bind (upholds_other (.perform rfl) hs'.1)
            (fun _ _ hs'' => ⟨trivial, hs'', fun id' hid' => (by cases hid')⟩)
            fun _ _ hs'' => ⟨trivial, hs'', fun id' hid' => (by cases hid')⟩
        · simp only [he]
          exact ⟨trivial, hs'.1, fun id' hid' => (by cases hid')⟩

theorem other_previewCrmData (idKey op periodStart periodEnd community : Nat) :
    (previewCrmData idKey op periodStart periodEnd community : Act F B (Preflight F)).AllOps
      fun o => counts o = false := by
  unfold previewCrmData
  split_ifs
  · trivial
  · refine .bind (.perform rfl) fun key => ?_
    cases key with
    | none => trivial
    | some key =>
        refine .bind (.perform rfl) fun found => ?_
        cases found with
        | false => trivial
        | true => exact .bind (.perform rfl) fun _ => trivial

theorem upholds_startSimulationFromCrm (id : Nat) (req : SimulateFromCrmRequest)
    (community : Nat) (hclean : log.staged = []) (h : At log false false s) :
    (startSimulationFromCrm id req community : Act F B SimulateResponse).Upholds (May t)
      (fun _ => True) s fun _ => Open t (queueFailed id) log := by
  refine upholds_before hclean (.perform rfl) h fun key s₁ h₁ => ?_
  cases key with
  | none => exact upholds_reject hclean _ _ h₁
  | some key =>
      refine upholds_before hclean (other_previewCrmData _ _ _ _ _) h₁ fun preflight s₂ h₂ => ?_
      cases preflight.blockers with
      | cons first rest => exact upholds_reject hclean _ _ h₂
      | nil =>
          exact upholds_created hclean (upholds_createSimulation _ h₂) (by trivial) _

/-- A deletion's commit is followed by its entry only. -/
theorem upholds_deleteSimulation (id community : Nat) (hclean : log.staged = [])
    (h : At log false false s) :
    (deleteSimulation id community : Act F B Unit).Upholds (May t) (fun _ => True) s
      fun _ => Open t (queueFailed id) log := by
  refine upholds_before hclean (.perform rfl) h fun simulation s₁ h₁ => ?_
  cases simulation with
  | none => exact upholds_reject hclean _ _ h₁
  | some simulation =>
      refine upholds_before hclean (.perform rfl) h₁ fun _ s₂ h₂ => ?_
      refine upholds_before hclean (.perform rfl) h₂ fun _ s₃ h₃ => ?_
      refine upholds_before hclean (.perform rfl) h₃ fun _ s₄ h₄ => ?_
      have hlog : ∀ s₅ : World F B × Trace F B, At log false false s₅ →
          (await (.logAudit .request
            { payload := .deleted simulation.status
              entityId := id
              idCommunity := community }) : Act F B Unit).Upholds (May t) (fun _ => True) s₅
            fun _ => Open t (queueFailed id) log := fun s₅ h₅ =>
        .perform trivial fun _ _ hmay =>
          ⟨trivial, open_of_staged hclean (settled_of_quiet (at_requestEntry h₅ hmay))⟩
      cases simulation.resultStorageKey with
      | none => exact hlog s₄ h₄
      | some key =>
          exact upholds_before hclean (.perform rfl) h₄ fun _ s₅ h₅ => hlog s₅ h₅

end Programs

/-! ## Sequences -/

/-- The part whose commit and whose entry are in sessions of their own. -/
def Operation.ownPart : Operation F B → Part
  | .startSimulation id .. | .startSimulationFromCrm id .. | .deleteSimulation id _
  | .markFailedToQueue id _ => queueFailed id
  | .saveSuccess id .. => ⟨.own, "simulation_key.simulation.succeeded", id⟩
  | .saveFailure id _ => ⟨.own, "simulation_key.simulation.failed", id⟩

theorem part_cases {operation : Operation F B} {part : Part} (h : part ∈ operation.parts) :
    (part.session = .own ∧ part = operation.ownPart) ∨
      (part.session = .request ∧ part.action ≠ operation.ownPart.action) := by
  cases operation with
  | startSimulation | startSimulationFromCrm =>
      rcases List.mem_pair.mp h with rfl | rfl
      · exact Or.inr ⟨rfl, by simp [Operation.ownPart, queueFailed]⟩
      · exact Or.inl ⟨rfl, rfl⟩
  | deleteSimulation =>
      obtain rfl := List.mem_singleton.mp h
      exact Or.inr ⟨rfl, by simp [Operation.ownPart, queueFailed]⟩
  | markFailedToQueue | saveSuccess | saveFailure =>
      obtain rfl := List.mem_singleton.mp h
      exact Or.inl ⟨rfl, rfl⟩

section Sequences

variable [PyFloat F] {lib : Libraries F B L} {x : Done F B}

theorem settled_of_ran (h : x.Ran lib) (hclean : x.before.staged = []) :
    ∃ added, x.after = extended x.before added ∧
      (added = [] ∧ (x.trace.any (commits .own) = true → x.trace.any cuts = true) ∨
        (∃ entry, x.operation.ownPart.isEntry entry = true ∧ added = [entry]) ∧
          x.trace.any cuts = false) := by
  obtain ⟨w, w', r, hbefore, hafter, hends⟩ := h
  have hat : At x.before false false (w, ([] : Trace F B)) := ⟨hbefore, rfl, rfl⟩
  have hclear : Clear x.task x.before := by simp [Clear, hclean]
  have hupholds : (x.operation.program lib).Upholds (May x.task) (fun _ => True) (w, [])
      fun _ => Settled x.operation.ownPart x.before := by
    cases x.operation with
    | startSimulation id uuid req file community =>
        exact upholds_answered hclean
          (upholds_startSimulation lib id uuid req file community hclean hat)
    | startSimulationFromCrm id req community =>
        exact upholds_answered hclean (upholds_startSimulationFromCrm id req community hclean hat)
    | deleteSimulation id community =>
        exact upholds_answered hclean (upholds_deleteSimulation id community hclean hat)
    | markFailedToQueue id reason => exact upholds_markFailedToQueue id reason hclear hat
    | saveSuccess id result path => exact upholds_saveSuccess id result path hclear hat
    | saveFailure id errorMessage => exact upholds_saveFailure id errorMessage hclear hat
  obtain ⟨added, own, cut, hat', hadded⟩ := hupholds.ends hends
  refine ⟨added, hafter.symm.trans hat'.audit, ?_⟩
  rw [hat'.own, hat'.cut]
  exact hadded

/-- One operation of a sequence. -/
theorem recorded_step (h : x.Ran lib) (hclean : x.before.staged = []) {part : Part}
    (hpart : part ∈ x.operation.parts) (heffect : x.TookEffect part) :
    x.Recorded part ↔ part.session = .own ∧ x.trace.any cuts = false := by
  obtain ⟨added, hafter, hadded⟩ := settled_of_ran h hclean
  have hcount : x.Recorded part ↔ added.countP part.isEntry = 1 := by
    rw [Done.Recorded, hafter, extended, List.countP_append]
    omega
  rw [hcount]
  rcases part_cases hpart with ⟨hown, rfl⟩ | ⟨hrequest, haction⟩
  · rw [Done.TookEffect, hown] at heffect
    rcases hadded with ⟨rfl, hcut⟩ | ⟨⟨entry, hentry, rfl⟩, hcut⟩
    · simp [hcut heffect]
    · simp [hentry, hcut, hown]
  · -- the entry that may have been added is another part's
    have hnone : added.countP part.isEntry = 0 := by
      rcases hadded with ⟨rfl, -⟩ | ⟨⟨entry, hentry, rfl⟩, -⟩
      · rfl
      · have hother : part.isEntry entry = false := by
          simp only [Part.isEntry, Bool.and_eq_true, decide_eq_true_eq] at hentry
          simp only [Part.isEntry, hentry.1, haction.symm, decide_false, Bool.false_and]
        simp [hother]
    simp [hnone, hrequest]

/-- Every operation of a sequence starts with nothing staged, and what it leaves stays. -/
theorem sequence_keeps {log log' : AuditLog} {steps : List (Done F B)}
    (h : Sequence lib log steps log') (hclean : log.staged = []) :
    log.entries <+: log'.entries ∧
      ∀ x ∈ steps, x.Ran lib ∧ x.before.staged = [] ∧ x.after.entries <+: log'.entries := by
  induction h with
  | nil log => exact ⟨List.prefix_refl _, by simp⟩
  | @cons x rest log' ran later ih =>
      obtain ⟨added, hafter, -⟩ := settled_of_ran ran hclean
      have hentries : x.before.entries <+: x.after.entries := by
        rw [hafter]
        exact List.prefix_append _ _
      obtain ⟨hlater, hrest⟩ := ih (by rw [hafter]; exact hclean)
      refine ⟨hentries.trans hlater, fun y hy => ?_⟩
      rcases List.mem_cons.mp hy with rfl | hy
      · exact ⟨ran, hclean, hlater⟩
      · exact hrest y hy

/-- What took effect has its one entry, for good, exactly when its entry is committed in a
session of its own and no fault comes between the two commits. -/
theorem recorded_iff (lib : Libraries F B L) {log log' : AuditLog} {steps : List (Done F B)}
    (hrun : Sequence lib log steps log') (hclean : log.staged = []) {x : Done F B}
    (hx : x ∈ steps) {part : Part} (hpart : part ∈ x.operation.parts)
    (heffect : x.TookEffect part) :
    (x.Recorded part ↔ part.session = .own ∧ x.trace.any cuts = false) ∧
      x.after.entries <+: log'.entries := by
  obtain ⟨hran, hstaged, hkept⟩ := (sequence_keeps hrun hclean).2 x hx
  exact ⟨recorded_step hran hstaged hpart heffect, hkept⟩

end Sequences

/-! ## Small sequences -/

/-- Every operation goes through. -/
def goThrough (t : Nat) (o : Op ℚ Unit) (s : World ℚ Unit × Trace ℚ Unit) :
    Option (Except Exn o.Resp × World ℚ Unit × Trace ℚ Unit) :=
  (answer t o s.1).map fun x => (x.1, x.2, s.2 ++ [(o, .ok)])

theorem may_goThrough {t : Nat} (o : Op ℚ Unit) (s : World ℚ Unit × Trace ℚ Unit)
    (r : Except Exn o.Resp) (s' : World ℚ Unit × Trace ℚ Unit)
    (h : goThrough t o s = some (r, s')) : May t o s r s' := by
  obtain ⟨x, hx, heq⟩ := Option.map_eq_some_iff.mp h
  obtain ⟨rfl, rfl⟩ := Prod.mk.inj heq
  exact ⟨.ok, hx, rfl, fun _ => rfl⟩

/-- A row that waits for its run, and what an operation on it comes to. -/
def onSmallRow (operation : Operation ℚ Unit) :
    Option (Except Exn Unit × World ℚ Unit × Trace ℚ Unit) :=
  (operation.program smallLib).run (goThrough 0) (smallWorld (some smallRow) 0 "d", [])

def smallDone (operation : Operation ℚ Unit) : Done ℚ Unit :=
  { task := 0
    operation := operation
    trace := ((onSmallRow operation).map fun x => x.2.2).getD []
    before := { entries := [], staged := [] }
    after :=
      ((onSmallRow operation).map fun x => x.2.1.audit).getD { entries := [], staged := [] } }

theorem sequence_small {operation : Operation ℚ Unit} (h : (onSmallRow operation).isSome = true) :
    Sequence smallLib { entries := [], staged := [] } [smallDone operation]
      (smallDone operation).after := by
  obtain ⟨⟨r, w', tr⟩, hx⟩ := Option.isSome_iff_exists.mp h
  refine .cons (x := smallDone operation) ⟨smallWorld (some smallRow) 0 "d", w', r, rfl, ?_, ?_⟩
    (.nil _)
  · simp [smallDone, hx]
  · have htrace : (smallDone operation).trace = tr := by simp [smallDone, hx]
    rw [htrace]
    exact Ends.of_run id may_goThrough hx

theorem failure_recorded :
    (smallDone (.saveFailure 1 "empty_file")).Recorded
      ⟨.own, "simulation_key.simulation.failed", 1⟩ := by
  have heffect : (smallDone (.saveFailure 1 "empty_file")).TookEffect
      ⟨.own, "simulation_key.simulation.failed", 1⟩ := by
    show List.any _ _ = true
    rfl
  exact (recorded_iff smallLib (sequence_small rfl) rfl (List.mem_singleton_self _)
    (List.mem_singleton_self _) heffect).1.mpr ⟨rfl, rfl⟩

/-- A deletion in which nothing fails leaves no entry. -/
theorem deletion_unrecorded :
    Sequence smallLib { entries := [], staged := [] } [smallDone (.deleteSimulation 1 3)]
        (smallDone (.deleteSimulation 1 3)).after ∧
      (smallDone (.deleteSimulation 1 3)).trace.all (·.2 = .ok) = true ∧
      ∃ part ∈ (smallDone (.deleteSimulation 1 3)).operation.parts,
        (smallDone (.deleteSimulation 1 3)).TookEffect part ∧
          ¬ (smallDone (.deleteSimulation 1 3)).Recorded part := by
  refine ⟨sequence_small rfl, rfl, _, List.mem_singleton_self _, ?_, fun h => ?_⟩
  · show List.any _ _ = true
    rfl
  · have hcount : (0 : Nat) = 0 + 1 := h
    cases hcount

end SimulationKey.Theorems.AuditTrail
