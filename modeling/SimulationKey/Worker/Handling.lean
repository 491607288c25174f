import SimulationKey.Api.Service
import SimulationKey.Kit.Knowledge

/-!
# What `_process` establishes

The rule of `_process` for any discipline. A discipline says what the run's
snapshot, its two writers and its download establish (`Handles`); the exits of
`_process` follow along the program (`Handles.process`).

Every exit but two hands back the upload of the snapshot. The other two hand
back none: the row names no upload, or its object was missing.
-/

namespace SimulationKey

open Kit Kit.Prog Kit.Discipline

variable {F B L α β : Type}

/-! ## Operations -/

/-- What `_process` awaits besides the local database, the upload and the two
writers. -/
def Op.routine : Op F B → Bool
  | .getAllocationKey .. | .summarize .. | .fetchRows .. | .closeCrm _ | .stopHeartbeat
  | .runSimulation .. | .remove _ => true
  | _ => false

theorem routine_readCrmKey (idKey idCommunity : Nat) :
    (readCrmKey idKey idCommunity : Act F B _).AllOps fun o => o.routine = true :=
  .ensuring (.perform rfl) (.perform rfl)

theorem routine_readPeriod [PyFloat F] (idCommunity op periodStart periodEnd : Nat)
    (consumerNames : List String) (iterations : Nat) :
    (readPeriod idCommunity op periodStart periodEnd consumerNames iterations :
      Act F B _).AllOps fun o => o.routine = true := by
  refine .ensuring (.bind (.perform rfl) fun summary => ?_) (.perform rfl)
  by_cases hok : (evaluate summary consumerNames iterations).ok = true
  · simp only [hok, if_true]
    exact .bind (.perform rfl) fun _ => trivial
  · simp only [hok, Bool.false_eq_true, if_false]
    trivial

/-! ## Messages -/

/-- The message of a failure that is no missing object. -/
def ordinary (errorMessage : String) : Prop := errorMessage.toList.take 2 ≠ ['s', 't']

theorem ordinary_append {a b : String} (ha : ordinary a) (hlength : 2 ≤ a.toList.length) :
    ordinary (a ++ b) := by
  unfold ordinary at ha ⊢
  rwa [String.toList_append, List.take_append_of_le_length hlength]

theorem ordinary_ite {c : Prop} [Decidable c] {a b m : String} (ha : ordinary a)
    (hb : ordinary b) (hal : 2 ≤ a.toList.length) (hbl : 2 ≤ b.toList.length) :
    ordinary ((if c then a else b) ++ m) := by
  split
  · exact ordinary_append ha hal
  · exact ordinary_append hb hbl

theorem ordinary_message (failure : Failure) : ordinary failure.message := by
  cases failure with
  | load e | crmLoad e => refine ordinary_ite ?_ ?_ ?_ ?_ <;> simp [ordinary]
  | unsupportedFile | unreadableFile | crmDataRejected | pivot | tooLarge | input =>
      refine ordinary_append ?_ ?_ <;> simp [ordinary]

theorem ordinary_keyNotFound (idKey : Nat) : ordinary s!"key_not_found: {idKey}" := by
  change ordinary ("key_not_found: " ++ toString idKey)
  refine ordinary_append ?_ ?_ <;> simp [ordinary]

theorem ordinary_deliveryLimit (delivered : Nat) (rest : String) :
    ordinary (s!"delivery_limit_reached: delivery {delivered}, the " ++ rest) := by
  change ordinary ("delivery_limit_reached: delivery " ++ toString delivered ++ ", the " ++ rest)
  rw [String.append_assoc, String.append_assoc]
  refine ordinary_append ?_ ?_ <;> simp [ordinary]

theorem ordinary_solverCrashed (delivered : Nat) (rest : String) :
    ordinary (s!"solver_crashed (likely out of memory) on delivery {delivered}: " ++ rest) := by
  change ordinary ("solver_crashed (likely out of memory) on delivery " ++ toString delivered ++
    ": " ++ rest)
  rw [String.append_assoc, String.append_assoc]
  refine ordinary_append ?_ ?_ <;> simp [ordinary]

/-! ## The rule -/

/-- What a handler's steps establish, from `Base` to `Base`: `Seen` after the
snapshot, `Saved` after either writer, `Exit` where `_process` returns. -/
structure Handles {s : System (Op F B) Op.Resp Exn} (d : Discipline s) (simulationId t : Nat)
    (Base : s.World → Prop) (Seen : Option SimulationModel → s.World → Prop)
    (Saved : s.World → Prop) (Exit : Option SourceKey → s.World → Prop) : Prop where
  routine : ∀ o, o.routine = true → d.Yields t Base (await o) fun _ _ => True
  snapshot : d.Yields t Base snapshotSimulation Seen
  failure : ∀ m, ordinary m → d.Yields t Base (saveFailure simulationId m) fun _ => Saved
  success : ∀ result path,
    d.Yields t Base (saveSuccess simulationId result path) fun _ => Saved
  download : ∀ row key, row.fileStorageKey = some key →
    d.Yields t (fun w => Seen (some row) w ∧ Base w) (downloadSource simulationId key) fun r w =>
      ∀ terminal, r = .error terminal → Exit terminal w
  seen : ∀ row, d.Lasting t (Seen row)
  saved : d.Lasting t Saved
  exit : ∀ key, d.Lasting t (Exit key)
  gone : ∀ w, Seen none w → Exit none w
  settled : ∀ row w, Seen (some row) w → row.status ≠ .pending → Exit row.fileStorageKey w
  exit_saved : ∀ row w, Seen (some row) w → Saved w → Exit row.fileStorageKey w
  exit_without : ∀ row w, Seen (some row) w → Saved w →
    row.source = .crm ∨ row.fileStorageKey = none ∨ row.fileName = none → Exit none w

namespace Handles

variable {s : System (Op F B) Op.Resp Exn} {d : Discipline s} {simulationId t : Nat}
  {Base : s.World → Prop} {Seen : Option SimulationModel → s.World → Prop} {Saved : s.World → Prop}
  {Exit : Option SourceKey → s.World → Prop} (h : Handles d simulationId t Base Seen Saved Exit)
include h

theorem allRoutine {p : Act F B α} (hops : p.AllOps fun o => o.routine = true) :
    d.Yields t Base p fun _ _ => True := by
  intro w hw
  induction p generalizing w with
  | ret outcome => exact ⟨hw, fun _ _ => trivial⟩
  | op o next ih =>
      intro w' hrely hinv
      obtain ⟨hpre, hnext⟩ := h.routine o hops.1 w hw w' hrely hinv
      exact ⟨hpre, fun choice r w'' hexec =>
        ih r (hops.2 r) w'' (hnext choice r w'' hexec).1⟩

/-! Each step goes on, or ends the run with the upload to delete. -/

variable (row : SimulationModel)

theorem settle {m : String} {key : Option SourceKey} (hm : ordinary m)
    (hexit : ∀ w, Seen (some row) w → Saved w → Exit key w) :
    d.Yields t (fun w => Seen (some row) w ∧ Base w)
      (SimulationKey.settle simulationId m key : Act F B (Except (Option SourceKey) α))
      fun r w => ∀ terminal, r = .error terminal → Exit terminal w := by
  refine ((h.failure m hm).knowing (h.seen (some row))).bind (fun _ => h.saved) fun _ => ?_
  refine .pure fun w hw hsaved terminal hr => ?_
  obtain rfl := Except.error.inj hr
  exact hexit w hw.1 hsaved

/-- An operation of no consequence, and what follows it. -/
theorem routine_next {p : Act F B α} {f : α → Act F B β} {M : β → s.World → Prop}
    (hops : p.AllOps fun o => o.routine = true)
    (hf : ∀ a, d.Yields t (fun w => Seen (some row) w ∧ Base w) (f a) M) :
    d.Yields t (fun w => Seen (some row) w ∧ Base w) (p >>= f) M :=
  ((h.allRoutine hops).knowing (h.seen (some row))).next hf

theorem afterSolverCrash {delivered : Option Nat} {text : String} :
    d.Yields t (fun w => Seen (some row) w ∧ Base w)
      (SimulationKey.afterSolverCrash simulationId delivered text row.fileStorageKey :
        Act F B (Except (Option SourceKey) α))
      fun r w => ∀ terminal, r = .error terminal → Exit terminal w := by
  unfold SimulationKey.afterSolverCrash
  cases delivered with
  | none =>
      refine h.settle row (ordinary_append ?_ ?_) (h.exit_saved row) <;> simp [ordinary]
  | some n =>
      by_cases hretry : n < maxSolverCrashDeliveries
      · simp only [hretry, if_true]
        exact .raise _
      · simp only [hretry, if_false]
        exact h.settle row (ordinary_solverCrashed n text) (h.exit_saved row)

theorem loadFromCrm [PyFloat F] (hcrm : row.source = .crm) (consumerNames : List String)
    (iterations : Nat) :
    d.Yields t (fun w => Seen (some row) w ∧ Base w)
      (SimulationKey.loadFromCrm simulationId row consumerNames iterations)
      fun r w => ∀ terminal, r = .error terminal → Exit terminal w := by
  have hexit : ∀ w, Seen (some row) w → Saved w → Exit none w := fun w hseen hsaved =>
    h.exit_without row w hseen hsaved (Or.inl hcrm)
  unfold SimulationKey.loadFromCrm
  split
  · refine h.routine_next row (.tryCatch (routine_readPeriod _ _ _ _ _ _) fun _ => trivial)
      fun period => ?_
    cases loadRows period.1 period.2 with
    | error failure => exact h.settle row (ordinary_message failure) hexit
    | ok raw => exact .pure fun _ _ terminal hr => by cases hr
  · exact h.settle row (by simp [ordinary]) hexit

theorem loadFromFile [PyFloat F] (lib : Libraries F B L) (consumerNames : List String) :
    d.Yields t (fun w => Seen (some row) w ∧ Base w)
      (SimulationKey.loadFromFile lib simulationId row consumerNames)
      fun r w => ∀ terminal, r = .error terminal → Exit terminal w := by
  unfold SimulationKey.loadFromFile
  split
  · rename_i key fileName hkey _
    refine (h.download row key hkey).bind
      (fun r => .forall fun terminal => .imp (h.exit terminal)) fun downloaded => ?_
    cases downloaded with
    | error terminal =>
        refine .pure fun w _ hexit terminal' hr => ?_
        obtain rfl := Except.error.inj hr
        exact hexit terminal rfl
    | ok content =>
        simp only
        cases loadUpload lib content fileName (row.injectionName.getD "") consumerNames with
        | error failure =>
            refine (h.settle row (ordinary_message failure) ?_).mono fun _ _ hr _ => hr
            exact hkey ▸ h.exit_saved row
        | ok raw => exact .pure fun _ _ _ terminal hr => by cases hr
  · rename_i hincomplete
    refine h.settle row (by simp [ordinary]) fun w hseen hsaved =>
      h.exit_without row w hseen hsaved (Or.inr ?_)
    cases hkey : row.fileStorageKey with
    | none => exact Or.inl rfl
    | some key =>
        cases hname : row.fileName with
        | none => exact Or.inr rfl
        | some fileName => exact absurd hname (hincomplete key fileName hkey)

theorem loadSource [PyFloat F] (lib : Libraries F B L) (keyInput : SimulationKeyInput F) :
    d.Yields t (fun w => Seen (some row) w ∧ Base w)
      (SimulationKey.loadSource lib simulationId row keyInput)
      fun r w => ∀ terminal, r = .error terminal → Exit terminal w := by
  unfold SimulationKey.loadSource
  cases hsource : row.source with
  | crm => exact h.loadFromCrm row hsource _ _
  | file => exact h.loadFromFile row lib _

theorem solveRun {delivered : Option Nat} (keyInput : SimulationKeyInput F)
    (raw : SimulationRawData F) :
    d.Yields t (fun w => Seen (some row) w ∧ Base w)
      (SimulationKey.solveRun simulationId delivered row keyInput raw)
      fun r w => ∀ terminal, r = .error terminal → Exit terminal w := by
  refine Yields.tryCatch (h.routine_next row (.tryCatch (.perform rfl) fun e => ?_) fun solved =>
    .pure fun _ _ terminal hr => by cases hr) fun e => ?_
  · cases e <;> trivial
  · cases e with
    | solverCrash text => exact h.afterSolverCrash row
    | cancelled => exact .raise _
    | _ =>
        refine h.settle row (ordinary_append ?_ ?_) (h.exit_saved row) <;> simp [ordinary]

theorem persistRun (solved : KeySimResult F × Nat) :
    d.Yields t Base (SimulationKey.persistRun simulationId solved) fun _ => Saved :=
  Yields.ensuring ((h.success solved.1 solved.2).tryCatch fun _ => .raise _) (fun _ => h.saved)
    (h.routine _ rfl)

/-- A writer, and the upload handed back. -/
theorem saved_exit {saving : Act F B Unit} (hsaving : d.Yields t Base saving fun _ => Saved) :
    d.Yields t (fun w => Seen (some row) w ∧ Base w)
      (saving >>= fun _ => Pure.pure row.fileStorageKey) Exit :=
  (hsaving.knowing (h.seen (some row))).bind (fun _ => h.saved) fun _ =>
    .pure fun w hw hsaved => h.exit_saved row w hw.1 hsaved

theorem runKey [PyFloat F] (lib : Libraries F B L) (delivered : Option Nat)
    (key : AllocationKeyModel F) :
    d.Yields t (fun w => Seen (some row) w ∧ Base w)
      (SimulationKey.runKey lib simulationId delivered row key) Exit := by
  have hlast : ∀ {α : Type} (r : Except (Option SourceKey) α),
      d.Lasting t fun w => ∀ terminal, r = .error terminal → Exit terminal w :=
    fun r => .forall fun terminal => .imp (h.exit terminal)
  refine (h.loadSource row lib _).bind hlast fun loaded => ?_
  cases loaded with
  | error terminal => exact .pure fun w _ hexit => hexit terminal rfl
  | ok raw =>
      simp only
      split
      · refine (h.saved_exit row (h.failure _ (ordinary_append ?_ ?_))).mono
          fun _ _ hexit _ => hexit
        · simp [ordinary]
        · simp
      · refine ((h.solveRun row _ raw).bind hlast fun solved => ?_).mono fun _ _ hexit _ => hexit
        cases solved with
        | error terminal => exact .pure fun w _ hexit => hexit terminal rfl
        | ok solved => exact (h.saved_exit row (h.persistRun solved)).mono fun _ _ hexit _ => hexit

/-- What `_process` establishes where it returns. -/
theorem process [PyFloat F] (lib : Libraries F B L) (delivered : Option Nat) :
    d.Yields t Base (SimulationKey.process lib simulationId delivered) Exit := by
  refine h.snapshot.bind_knowing fun snapshot => ?_
  cases snapshot with
  | none => exact .pure fun w hw => h.gone w hw.1
  | some row =>
      by_cases hstatus : row.status = .pending
      · simp only [hstatus, ne_eq, not_true_eq_false, if_false]
        split
        · exact h.saved_exit row (h.failure _ (ordinary_deliveryLimit _ _))
        · refine h.routine_next row (.tryCatch (routine_readCrmKey _ _) fun _ => trivial)
            fun key => ?_
          cases key with
          | none => exact h.saved_exit row (h.failure _ (ordinary_keyNotFound _))
          | some key => exact h.runKey row lib delivered key
      · simp only [hstatus, ne_eq, not_false_eq_true, if_true]
        exact .pure fun w hw => h.settled row w hw.1 hstatus

end Handles

end SimulationKey
