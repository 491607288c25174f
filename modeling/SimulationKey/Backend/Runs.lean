import SimulationKey.Api.Service

/-!
# Runs of the whole service

Requests and deliveries about one simulation, any number of them at a time, over
the shared world. A simulation is created by one request; a delivery needs a
copy of the message in the stream, and may come back whatever became of earlier
ones. A task that dies loses its transactions. The CRM may change at any moment.
-/

namespace SimulationKey

open Kit

variable {F B L : Type}

inductive Entry (F B : Type) where
  | startSimulation (uuid : Uuid) (req : SimulateRequest) (file : UploadFile B) (community : Nat)
  | startSimulationFromCrm (req : SimulateFromCrmRequest) (community : Nat)
  | deleteSimulation (community : Nat)
  | deliver (delivered : Option Nat)
  | saveSuccess (result : KeySimResult F) (timeseriesPath : Nat)
  | saveFailure (errorMessage : String)

/-- A task's sessions go with it. -/
def World.abort (t : Nat) (w : World F B) : World F B :=
  { w with
    db := (w.db.rollback ⟨t, .request⟩).rollback ⟨t, .own⟩
    audit := (w.audit.rollback ⟨t, .request⟩).rollback ⟨t, .own⟩ }

/-- A request's answer goes to its client. -/
def answered {α : Type} (body : Act F B α) : Act F B Unit := do
  let _ ← withRequestSessions body
  pure ()

section Service

variable [PyFloat F] (lib : Libraries F B L) (simulationId : Nat)

def enter : Entry F B → World F B → Option (World F B × Act F B Unit)
  | .startSimulation uuid req file community, w =>
    if w.started then none
    else some ({ w with started := true },
      answered (startSimulation lib simulationId uuid req file community))
  | .startSimulationFromCrm req community, w =>
    if w.started then none
    else some ({ w with started := true },
      answered (startSimulationFromCrm simulationId req community))
  | .deleteSimulation community, w =>
    some (w, answered (deleteSimulation simulationId community))
  | .deliver delivered, w =>
    if w.nats.stored = 0 then none else some (w, handleMessage lib simulationId delivered)
  | .saveSuccess result path, w => some (w, saveSuccess simulationId result path)
  | .saveFailure errorMessage, w => some (w, saveFailure simulationId errorMessage)

/-- The API and the worker at work on one simulation. -/
def service : System (Op F B) Op.Resp Exn where
  World := World F B
  Choice := Choice
  Entry := Entry F B
  Event := CrmState F
  exec := exec
  enter := enter lib simulationId
  abort := World.abort
  event := fun crm w => { w with crm := crm }

/-- A configuration of the service. -/
abbrev State : Type := System.Config (service lib simulationId)

end Service

/-- Nothing has happened to the simulation yet. -/
structure World.Fresh (w : World F B) : Prop where
  row : w.db.row = none
  created : w.db.created = false
  trees : w.db.trees = []
  tx : w.db.tx = none
  finisher : w.db.finisher = none
  stored : w.nats.stored = 0
  replies : w.nats.replies = []
  audit : w.audit = { entries := [], staged := [] }
  finished : w.finished = []

/-- No task has started. -/
def Idle [PyFloat F] {lib : Libraries F B L} {simulationId : Nat}
    (c : State lib simulationId) : Prop := ∀ t, c.tasks t = .idle

/-- A request's sessions can always be closed. -/
theorem polite_answered [PyFloat F] {lib : Libraries F B L} {simulationId : Nat}
    {d : Discipline (service lib simulationId)} {t : Nat} {α : Type} {body : Act F B α}
    (hclose : ∀ o : Op F B, o.closes = true → ∀ w, d.inv w → d.pre t o w)
    (hbody : d.Polite t body) : d.Polite t (answered body) := by
  have hclosed : ∀ {o : Op F B}, o.closes = true → d.Polite t (await o) := fun ho =>
    .of_allOps (.perform (hclose _ ho))
  exact ((hbody.ensuring (hclosed rfl)).ensuring (hclosed rfl)).bind fun _ _ => trivial

/-! ## A small service

One consumer takes all of one timestep's production; every upload parses to it. -/

def smallLib : Libraries ℚ Unit String :=
  { lower := id
    readCsv := fun _ => .ok
      { timesteps := 1, columns := [("A", fun _ => .ok 1), ("injection", fun _ => .ok 1)] }
    readExcel := fun _ => .error "File is not a zip file"
    str := id
    size := fun _ => 1
    measure := fun _ _ => none }

def smallKey (description : String) : AllocationKeyModel ℚ :=
  { name := "key"
    description := description
    iterations :=
      [{ number := 1
         energyAllocatedPercentage := 1
         consumers := [{ name := "A", energyAllocatedPercentage := 1 }] }] }

def smallWorld (row : Option SimulationModel) (stored : Nat) (description : String) :
    World ℚ Unit :=
  { started := row.isSome
    db := { row := row, created := row.isSome, trees := [], tx := none, finisher := none }
    crm :=
      { allocationKeys := fun _ _ => some (smallKey description)
        sharingOperations := fun _ _ => true
        meterConsumption := fun _ _ _ _ => [] }
    audit := { entries := [], staged := [] }
    storage := { sources := fun _ => some (), results := fun _ => none }
    nats :=
      { published := List.replicate stored (simulationSubject, simulationRequested 1)
        replies := [] }
    files := { series := fun _ => none, next := 0 }
    finished := [] }

def smallUuid : Uuid := ⟨"0b2e-4c11", by decide⟩

/-- A row that waits for its run over an upload. -/
def smallRow : SimulationModel :=
  fileModel 1 { name := "run", idKey := 7, injectionName := "injection" } 3 (smallKey "d")
    { community := 3, uuid := smallUuid, fileName := "data.csv" }

/-- The next `n` operations of a task go through. -/
def steps (t n : Nat) : List (System.Label (service smallLib 1)) := System.steps Choice.ok t n

/-! ## A task's own transaction -/

/-- The task holds no transaction. -/
def NoTx (t : Nat) (w : World F B) : Prop := ∀ tx, w.db.tx = some tx → tx.owner.task ≠ t

/-- A task's transaction is of its own session. -/
def OwnTx (t : Nat) (w : World F B) : Prop :=
  ∀ tx, w.db.tx = some tx → tx.owner.task = t → tx.owner = ⟨t, .own⟩

/-- A task's transaction is left alone. -/
def TxKept (t : Nat) (w w' : World F B) : Prop :=
  ∀ tx, tx.owner.task = t → (w.db.tx = some tx ↔ w'.db.tx = some tx)

/-- The request's session holds the row's deletion. -/
def DeletionStaged (t : Nat) (w : World F B) : Prop :=
  ∃ tx, w.db.tx = some tx ∧ tx.owner = ⟨t, .request⟩ ∧ tx.row = none

theorem NoTx.kept {t : Nat} {w w' : World F B} (h : NoTx t w) (hkept : TxKept t w w') :
    NoTx t w' :=
  fun tx htx howner => h tx ((hkept tx howner).mpr htx) howner

theorem NoTx.own {t : Nat} {w : World F B} (h : NoTx t w) (s : SessionKind) :
    w.db.own ⟨t, s⟩ = none :=
  (LocalDb.own_eq_none _ _).mpr fun tx htx howner => h tx htx (by rw [howner])

theorem NoTx.visible {t : Nat} {w : World F B} (h : NoTx t w) (s : SessionKind) :
    w.db.visible ⟨t, s⟩ = w.db.row := by
  simp [LocalDb.visible, h.own s]

theorem NoTx.exec [PyFloat F] {t : Nat} {choice : Choice} {o : Op F B} {w w' : World F B}
    {r : Except Exn o.Resp} (h : NoTx t w) (ho : o.writesDb = false)
    (hexec : SimulationKey.exec choice t o w = some (r, w')) : NoTx t w' := by
  have hdb := (exec_db hexec).eq_of_not_writesDb ho
  exact fun tx htx => h tx (hdb ▸ htx)

theorem NoTx.ownTx {t : Nat} {w : World F B} (h : NoTx t w) : OwnTx t w :=
  fun tx htx howner => absurd howner (h tx htx)

theorem OwnTx.kept {t : Nat} {w w' : World F B} (h : OwnTx t w) (hkept : TxKept t w w') :
    OwnTx t w' :=
  fun tx htx howner => h tx ((hkept tx howner).mpr htx) howner

theorem TxKept.trans {t : Nat} {w w' w'' : World F B} (h : TxKept t w w')
    (h' : TxKept t w' w'') : TxKept t w w'' :=
  fun tx howner => (h tx howner).trans (h' tx howner)

theorem TxKept.of_db {t : Nat} {w w' : World F B} (h : w'.db = w.db) : TxKept t w w' :=
  fun tx _ => by rw [h]

theorem DeletionStaged.kept {t : Nat} {w w' : World F B} (h : DeletionStaged t w)
    (hkept : TxKept t w w') : DeletionStaged t w' := by
  obtain ⟨tx, htx, howner, hrow⟩ := h
  exact ⟨tx, (hkept tx (by rw [howner])).mp htx, howner, hrow⟩

/-- What a flushed deletion leaves: the row is gone, or its deletion is staged. -/
theorem deleteRow_staged [PyFloat F] {t : Nat} {w w' : World F B}
    (hexec : answer t (.deleteRow .request) w = some (.ok (), w')) :
    (w'.db = w.db ∧ w'.db.row = none) ∨ DeletionStaged t w' := by
  obtain ⟨x, hx, heq⟩ := Option.map_eq_some_iff.mp hexec
  obtain ⟨-, rfl⟩ := Prod.mk.inj heq
  rcases onRow_cases hx with ⟨hfree, rfl⟩ | ⟨-, hgone, rfl⟩
  · cases hvisible : w.db.visible ⟨t, .request⟩ with
    | some row => exact Or.inr ⟨_, rfl, rfl, rfl⟩
    | none =>
        rcases LocalDb.free_cases hfree with ⟨-, -, hsame⟩ | ⟨tx, htx, howner, -, hown⟩
        · exact Or.inl ⟨rfl, hsame ▸ hvisible⟩
        · exact Or.inr ⟨tx, htx, howner, hown ▸ hvisible⟩
  · exact Or.inl ⟨rfl, hgone⟩

/-- Between two sessions of a worker's task. -/
structure Base (t : Nat) (w : World F B) : Prop where
  created : w.db.created = true
  noTx : NoTx t w

/-- Within a session of its own, before a claim of the task or after it. -/
structure Mine (t : Nat) (w : World F B) : Prop where
  created : w.db.created = true
  owner : OwnTx t w

theorem Base.mine {t : Nat} {w : World F B} (h : Base t w) : Mine t w :=
  ⟨h.created, h.noTx.ownTx⟩

theorem Base.of_db {t : Nat} {w w' : World F B} (h : Base t w) (hdb : w'.db = w.db) :
    Base t w' :=
  ⟨by rw [hdb]; exact h.created, h.noTx.kept (.of_db hdb)⟩

theorem Base.kept {t : Nat} {w w' : World F B} (h : Base t w)
    (hcreated : w.db.created = true → w'.db.created = true) (hkept : TxKept t w w') :
    Base t w' :=
  ⟨hcreated h.created, h.noTx.kept hkept⟩

theorem Mine.kept {t : Nat} {w w' : World F B} (h : Mine t w)
    (hcreated : w.db.created = true → w'.db.created = true) (hkept : TxKept t w w') :
    Mine t w' :=
  ⟨hcreated h.created, h.owner.kept hkept⟩

/-- Closing the session leaves the task without a transaction. -/
theorem Mine.close {t : Nat} {w : World F B} (h : Mine t w) :
    Base t { w with db := w.db.rollback ⟨t, .own⟩ } := by
  cases hown : w.db.own ⟨t, .own⟩ with
  | none =>
      rw [LocalDb.rollback_of_not_own hown]
      exact ⟨h.created, fun tx htx howner =>
        (LocalDb.own_eq_none _ _).mp hown tx htx (h.owner tx htx howner)⟩
  | some tx =>
      rw [LocalDb.rollback_of_own hown]
      exact ⟨h.created, fun tx htx => by cases htx⟩

/-! ## The local database over a run -/

theorem World.abort_db (t : Nat) (w : World F B) :
    (w.abort t).db = w.db ∨
      ∃ tx, w.db.tx = some tx ∧ tx.owner.task = t ∧ (w.abort t).db = { w.db with tx := none } := by
  have hclear : ∀ (db : LocalDb F) (s : SessionKind), db.rollback ⟨t, s⟩ = db ∨
      ∃ tx, db.tx = some tx ∧ tx.owner.task = t ∧ db.rollback ⟨t, s⟩ = { db with tx := none } := by
    intro db s
    cases hown : db.own ⟨t, s⟩ with
    | none => exact Or.inl (LocalDb.rollback_of_not_own hown)
    | some tx =>
        obtain ⟨htx, howner⟩ := (LocalDb.own_eq_some db _).mp hown
        exact Or.inr ⟨tx, htx, by rw [howner], LocalDb.rollback_of_own hown⟩
  have hdone : ∀ (db : LocalDb F) (s : SessionKind),
      ({ db with tx := none } : LocalDb F).rollback ⟨t, s⟩ = { db with tx := none } :=
    fun db s => LocalDb.rollback_of_not_own rfl
  rcases hclear w.db .request with h | ⟨tx, htx, howner, h⟩
  · rcases hclear w.db .own with h' | ⟨tx, htx, howner, h'⟩
    · exact Or.inl (by rw [abort, h, h'])
    · exact Or.inr ⟨tx, htx, howner, by rw [abort, h, h']⟩
  · exact Or.inr ⟨tx, htx, howner, by rw [abort, h, hdone]⟩

theorem World.abort_others {t : Nat} {w : World F B} {tx : Tx F} (howner : tx.owner.task ≠ t) :
    w.db.tx = some tx ↔ (w.abort t).db.tx = some tx := by
  rcases World.abort_db t w with hsame | ⟨own, hown, howner', hdrop⟩
  · rw [hsame]
  · rw [hdrop, hown]
    refine iff_of_false (fun heq => ?_) (by simp)
    obtain rfl := Option.some.inj heq
    exact howner howner'

/-- A step moves the local database as one of its tasks' operations does, drops
the transaction of a task that dies, or leaves it alone. -/
inductive DbStep [PyFloat F] {lib : Libraries F B L} {simulationId : Nat}
    (c : State lib simulationId) :
    System.Label (service lib simulationId) → LocalDb F → Prop where
  | move {t : Nat} {choice : Choice} {o : Op F B} {db : LocalDb F}
      {k : Except Exn o.Resp → Act F B Unit} (task : c.tasks t = .running (.op o k))
      (h : DbMove t c.world.db o db) : DbStep c (.step t choice) db
  | drop {t : Nat} {tx : Tx F} (held : c.world.db.tx = some tx) (owner : tx.owner.task = t) :
      DbStep c (.abort t) { c.world.db with tx := none }
  | same (l : System.Label (service lib simulationId)) : DbStep c l c.world.db

/-- An admission changes nothing but `started`. -/
theorem enter_world [PyFloat F] {lib : Libraries F B L} {simulationId : Nat} {e : Entry F B}
    {w w' : World F B} {p : Act F B Unit} (h : enter lib simulationId e w = some (w', p)) :
    ∃ started, w' = { w with started := started } := by
  cases e <;> simp only [enter] at h <;> (try split_ifs at h) <;>
    (obtain ⟨rfl, -⟩ := Prod.mk.inj (Option.some.inj h); exact ⟨_, rfl⟩)

theorem dbStep_of_next [PyFloat F] {lib : Libraries F B L} {simulationId : Nat}
    {c c' : State lib simulationId} {l : System.Label (service lib simulationId)}
    (h : (service lib simulationId).next l c = some c') : DbStep c l c'.world.db := by
  have hmoves := System.moves_of_next h
  generalize c'.world = w' at hmoves ⊢
  cases hmoves with
  | enter henter =>
      obtain ⟨started, rfl⟩ := enter_world henter
      exact .same _
  | step htask hexec => exact .move htask (exec_db hexec)
  | abort t =>
      rcases World.abort_db t c.world with hsame | ⟨tx, htx, howner, hdrop⟩
      · exact hsame ▸ .same _
      · exact hdrop ▸ .drop htx howner
  | event crm => exact .same _

end SimulationKey
