import SimulationKey.Backend.Runs

/-!
# An outcome is final, but for a late mark

The worker's two writers claim the row, so they never touch one that has its
outcome. `_mark_failed_to_queue` flushes an UPDATE by id: when the publish that
raised had stored the message, a worker may have committed an outcome first,
and the flush overwrites it.

The invariant is about transactions: one that is open will delete the row,
create it, or replace a committed PENDING version (`Tame`). It needs of the
mark's flush only that it meets no outcome.
-/

namespace SimulationKey.Theorems.Finality

open Kit

variable {F B L : Type} [PyFloat F] {lib : Libraries F B L} {simulationId : Nat}

/-! ## The invariant -/

structure Tame (db : LocalDb F) : Prop where
  created : ∀ row, db.row = some row → db.created = true
  tx : ∀ tx, db.tx = some tx → tx.row = none ∨ db.created = false ∨
    ∃ row, db.row = some row ∧ row.status = .pending

/-- A step that is no flush of the mark, or whose flush meets no outcome. -/
def careful (c : State lib simulationId) : System.Label (service lib simulationId) → Bool
  | .step t _ =>
    match c.tasks t with
    | .running (.op (.updateRow _ values) _) =>
      values.isEmpty || c.world.db.row.all (·.status = .pending)
    | _ => true
  | _ => true

/-- Runs whose late marks meet no outcome. -/
def CarefulRun (c c' : State lib simulationId) : Prop :=
  (service lib simulationId).Reaches (fun c l => careful c l = true) c c'

/-- The database has the row's outcome, or has lost the row. -/
def Keeps (row : SimulationModel) (db : LocalDb F) : Prop :=
  db.created = true ∧ ∀ row', db.row = some row' →
    row'.status = row.status ∧ row'.errorMessage = row.errorMessage ∧
      row'.resultStorageKey = row.resultStorageKey

omit [PyFloat F] in
/-- Staging a version of the row that the session sees, PENDING where that is
the committed one. -/
theorem Tame.stage {db : LocalDb F} (h : Tame db) {me : SessionId} {row : SimulationModel}
    {version : Option SimulationModel} {claimed : Bool} (hfree : db.locked me = false)
    (hvisible : db.visible me = some row) (hpending : db.row = some row → row.status = .pending) :
    Tame (db.stage me version claimed) := by
  refine ⟨h.created, fun tx' htx' => ?_⟩
  rcases LocalDb.free_cases hfree with ⟨-, -, hsame⟩ | ⟨tx, htx, -, -, hown⟩
  · -- no transaction: what it sees is the committed row
    have hrow : db.row = some row := hsame ▸ hvisible
    exact Or.inr (Or.inr ⟨row, hrow, hpending hrow⟩)
  · -- the session already holds the lock
    rw [hown] at hvisible
    rcases h.tx tx htx with hnone | hrest
    · rw [hnone] at hvisible
      cases hvisible
    · exact Or.inr hrest

/-- One step that overwrites no outcome keeps the invariant. -/
theorem Tame.step {c : State lib simulationId} {l : System.Label (service lib simulationId)}
    {db : LocalDb F} (h : Tame c.world.db) (hok : careful c l = true) (hstep : DbStep c l db) :
    Tame db := by
  cases hstep with
  | same => exact h
  | drop held owner => exact ⟨h.created, fun tx htx => by cases htx⟩
  | @move t choice o db k task hmove =>
      cases hmove with
      | same => exact h
      | claim free visible pending => exact h.stage free visible fun _ => pending
      | @update s values row sets free visible =>
          have hopen : c.world.db.row.all (·.status = .pending) = true := by
            simpa [careful, task, sets] using hok
          refine h.stage free visible fun hrow => ?_
          simpa [hrow] using hopen
      | insert fresh free => exact ⟨h.created, fun tx htx => Or.inr (Or.inl fresh)⟩
      | delete free visible =>
          refine ⟨h.created, fun tx htx => Or.inl ?_⟩
          obtain rfl := Option.some.inj htx
          rfl
      | @tree s tx tree own =>
          refine ⟨h.created, fun tx' htx' => ?_⟩
          obtain rfl := Option.some.inj htx'
          exact h.tx tx ((LocalDb.own_eq_some _ _).mp own).1
      | commit s =>
          cases hown : c.world.db.own ⟨t, s⟩ with
          | none => exact (LocalDb.commit_of_not_own hown).symm ▸ h
          | some tx =>
              rw [LocalDb.commit_of_own hown]
              exact ⟨fun _ _ => rfl, fun tx htx => by cases htx⟩
      | rollback s =>
          cases hown : c.world.db.own ⟨t, s⟩ with
          | none => exact (LocalDb.rollback_of_not_own hown).symm ▸ h
          | some tx =>
              rw [LocalDb.rollback_of_own hown]
              exact ⟨h.created, fun tx htx => by cases htx⟩

/-- One step keeps an outcome: only a commit changes the row, and what it
installs on an outcome is the deletion. -/
theorem Keeps.step {c : State lib simulationId} {l : System.Label (service lib simulationId)}
    {db : LocalDb F} {row : SimulationModel} (houtcome : row.status ≠ .pending)
    (h : Keeps row c.world.db) (htame : Tame c.world.db) (hstep : DbStep c l db) :
    Keeps row db := by
  cases hstep with
  | same => exact h
  | drop held owner => exact h
  | @move t choice o db k task hmove =>
      cases hmove with
      | same | claim | update | insert | delete | tree => exact h
      | rollback s =>
          cases hown : c.world.db.own ⟨t, s⟩ with
          | none => exact (LocalDb.rollback_of_not_own hown).symm ▸ h
          | some tx =>
              rw [LocalDb.rollback_of_own hown]
              exact h
      | commit s =>
          cases hown : c.world.db.own ⟨t, s⟩ with
          | none => exact (LocalDb.commit_of_not_own hown).symm ▸ h
          | some tx =>
              rw [LocalDb.commit_of_own hown]
              refine ⟨rfl, fun row' hrow' => ?_⟩
              rcases htame.tx tx ((LocalDb.own_eq_some _ _).mp hown).1 with
                hnone | hcreated | ⟨old, hold, hpending⟩
              · rw [hnone] at hrow'
                cases hrow'
              · rw [h.1] at hcreated
                cases hcreated
              · -- the committed row would be both PENDING and an outcome
                rw [(h.2 old hold).1] at hpending
                exact absurd hpending houtcome

/-! ## Runs -/

theorem Tame.run {c c' : State lib simulationId} (h : Tame c.world.db)
    (hrun : CarefulRun c c') : Tame c'.world.db := by
  induction hrun with
  | refl => exact h
  | tail _ ok step ih => exact ih.step ok (dbStep_of_next step)

theorem Keeps.run {c c' : State lib simulationId} {row : SimulationModel}
    (houtcome : row.status ≠ .pending) (h : Keeps row c.world.db) (htame : Tame c.world.db)
    (hrun : CarefulRun c c') : Keeps row c'.world.db := by
  induction hrun with
  | refl => exact h
  | tail run ok step ih => exact ih.step houtcome (htame.run run) (dbStep_of_next step)

/-- In a run whose late marks meet no outcome, a committed outcome stays as it
is until the row is deleted. -/
theorem outcome_final {c₀ c c' : State lib simulationId} (hfresh : c₀.world.Fresh)
    (hrun : CarefulRun c₀ c)
    (hlater : CarefulRun c c') {row row' : SimulationModel}
    (hrow : c.world.db.row = some row) (houtcome : row.status ≠ .pending)
    (hrow' : c'.world.db.row = some row') :
    row'.status = row.status ∧ row'.errorMessage = row.errorMessage ∧
      row'.resultStorageKey = row.resultStorageKey := by
  have hstart : Tame c₀.world.db := by
    refine ⟨fun row hrow => ?_, fun tx htx => ?_⟩
    · rw [hfresh.row] at hrow
      cases hrow
    · rw [hfresh.tx] at htx
      cases htx
  have htame : Tame c.world.db := hstart.run hrun
  have hkeeps : Keeps row c.world.db := by
    refine ⟨htame.created row hrow, fun row'' hrow'' => ?_⟩
    rw [hrow] at hrow''
    obtain rfl := Option.some.inj hrow''
    exact ⟨rfl, rfl, rfl⟩
  exact (hkeeps.run houtcome htame hlater).2 row' hrow'

/-! ## A start and a delivery -/

def start : State smallLib 1 := { world := smallWorld none 0 "d", tasks := fun _ => .idle }

/-- The message is stored but its publish times out, and a worker is handed it. -/
def lostPublish : List (System.Label (service smallLib 1)) :=
  .enter 0 (Entry.startSimulation smallUuid
      { name := "run", idKey := 7, injectionName := "injection" }
      { content := (), filename := some "data.csv" } 3) ::
    (steps 0 6 ++
      [.step 0 (Choice.lost (.other "nats: timeout")), .enter 1 (Entry.deliver (some 1))])

theorem start_fresh : start.world.Fresh :=
  { row := rfl
    created := rfl
    trees := rfl
    tx := rfl
    finisher := rfl
    stored := rfl
    replies := rfl
    audit := rfl
    finished := rfl }

/-- The mark that comes before the worker's claim stands: the delivery then ends
without touching it. -/
theorem outcome_final_marked_first :
    ∃ c c' : State smallLib 1, ∃ row row', CarefulRun start c ∧ CarefulRun c c' ∧
      c.world.db.row = some row ∧ row.status = .failed ∧ c'.world.db.row = some row' ∧
      c'.world.nats.replies = [(1, .ack)] ∧
      row'.status = row.status ∧ row'.errorMessage = row.errorMessage ∧
        row'.resultStorageKey = row.resultStorageKey := by
  have hmarked : ((System.runAll careful (lostPublish ++ steps 0 3) start).any fun c =>
      (System.runAll careful (steps 1 4) c).any fun c' =>
        c.world.db.row.any (·.status = .failed) && c'.world.db.row.isSome &&
          c'.world.nats.replies = [(1, .ack)]) = true := by decide +kernel
  obtain ⟨c, hc, hmarked⟩ := (Option.any_eq_true _ _).mp hmarked
  obtain ⟨c', hc', hmarked⟩ := (Option.any_eq_true _ _).mp hmarked
  simp only [Bool.and_eq_true, Option.any_eq_true, decide_eq_true_eq, Option.isSome_iff_exists]
    at hmarked
  obtain ⟨⟨⟨row, hrow, hfailed⟩, row', hrow'⟩, hack⟩ := hmarked
  have hrun : CarefulRun start c := System.reaches_of_runAll hc
  have hlater : CarefulRun c c' := System.reaches_of_runAll hc'
  refine ⟨c, c', row, row', hrun, hlater, hrow, hfailed, hrow', hack, ?_⟩
  exact outcome_final start_fresh hrun hlater hrow (by rw [hfailed]; decide) hrow'

/-- The mark that comes after the worker's commit turns a SUCCESS into FAILED. -/
theorem outcome_overwritten :
    ¬ ∀ (c₀ c c' : State smallLib 1) (row row' : SimulationModel), c₀.world.Fresh →
      (service smallLib 1).Reaches (fun _ _ => true) c₀ c → c.world.db.row = some row →
      row.status ≠ .pending → (service smallLib 1).Reaches (fun _ _ => true) c c' →
      c'.world.db.row = some row' →
      row'.status = row.status ∧ row'.errorMessage = row.errorMessage ∧
        row'.resultStorageKey = row.resultStorageKey := by
  intro hfinal
  have hoverwritten : ((System.runAll (fun _ _ => true) (lostPublish ++ steps 1 11) start).any
      fun c => (System.runAll (fun _ _ => true) (steps 0 3) c).any fun c' =>
        c.world.db.row.any (·.status = .success) && c'.world.db.row.any (·.status = .failed)) =
      true := by decide +kernel
  obtain ⟨c, hc, hoverwritten⟩ := (Option.any_eq_true _ _).mp hoverwritten
  obtain ⟨c', hc', hoverwritten⟩ := (Option.any_eq_true _ _).mp hoverwritten
  simp only [Bool.and_eq_true, Option.any_eq_true, decide_eq_true_eq] at hoverwritten
  obtain ⟨⟨row, hrow, hsuccess⟩, row', hrow', hfailed⟩ := hoverwritten
  have hsame := hfinal start c c' row row' start_fresh (System.reaches_of_runAll hc) hrow
    (by rw [hsuccess]; decide) (System.reaches_of_runAll hc') hrow'
  rw [hsuccess, hfailed] at hsame
  exact absurd hsame.1 (by decide)

end SimulationKey.Theorems.Finality
