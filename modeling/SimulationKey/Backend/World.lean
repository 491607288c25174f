import SimulationKey.Backend.LocalDb
import SimulationKey.Core.Event

/-!
# What the API and the worker share

The local database, the CRM's tables, the object store, the message stream and
the event bus, seen from one simulation.

* **CRM database** (`shared/crm_repository.py`, `shared/crm_meter_repository.py`)
  — keys and readings change only from outside; the audit log takes entries
  staged by sessions.
* **Object store** (`core/storage/client.py`) — uploads and results, under keys
  whose texts differ (`ObjectKey.text_injective`).
* **Message stream** (`core/queue/helper.py`) — the events that publishes have stored,
  each with its subject, and the replies to the deliveries of the simulation's.
-/

namespace SimulationKey

open Kit

/-! ## Object keys -/

inductive ObjectKey where
  | source (key : SourceKey)
  | result (key : ResultKey)
  deriving DecidableEq

def ObjectKey.text : ObjectKey → String
  | source key => key.text
  | result key => key.text

theorem notMem_digits (n : Nat) {c : Char} (hc : c.isDigit = false) : c ∉ (toString n).toList := by
  intro hmem
  rw [Nat.toString_eq_repr] at hmem
  have hdigit := Nat.isDigit_of_mem_toDigits (b := 10) (by norm_num) (by norm_num)
    (by simpa [Nat.repr] using hmem)
  rw [hc] at hdigit
  cases hdigit

/-- A list cut at its first separator. -/
theorem append_cons_inj {α : Type} {a : α} {l l' r r' : List α} (hl : a ∉ l) (hl' : a ∉ l')
    (heq : l ++ a :: r = l' ++ a :: r') : l = l' ∧ r = r' := by
  induction l generalizing l' with
  | nil =>
      cases l' with
      | nil => exact ⟨rfl, (List.cons.inj heq).2⟩
      | cons b l' => exact absurd (List.cons.inj heq).1 (List.ne_of_not_mem_cons hl')
  | cons b l ih =>
      cases l' with
      | nil => exact absurd (List.cons.inj heq).1.symm (List.ne_of_not_mem_cons hl)
      | cons b' l' =>
          obtain ⟨hb, hrest⟩ := List.cons.inj heq
          obtain ⟨hll, hrr⟩ := ih (List.not_mem_of_not_mem_cons hl)
            (List.not_mem_of_not_mem_cons hl') hrest
          exact ⟨by rw [hb, hll], hrr⟩

/-- The characters of a key's text: the community, the folder, the file. -/
def segments (community : Nat) (folder file : List Char) : List Char :=
  "simulations/".toList ++ ((toString community).toList ++ '/' :: (folder ++ '/' :: file))

theorem segments_inj {c c' : Nat} {d d' f f' : List Char} (hd : '/' ∉ d) (hd' : '/' ∉ d')
    (heq : segments c d f = segments c' d' f') : c = c' ∧ d = d' ∧ f = f' := by
  have hdigits : ∀ n : Nat, '/' ∉ (toString n).toList := fun n => notMem_digits n (by decide)
  unfold segments at heq
  obtain ⟨hc, hrest⟩ := append_cons_inj (hdigits c) (hdigits c') (List.append_cancel_left heq)
  obtain ⟨hfolder, hfile⟩ := append_cons_inj hd hd' hrest
  exact ⟨Nat.repr_inj.mp (String.toList_inj.mp hc), hfolder, hfile⟩

theorem toList_segments (community : Nat) (folder file : String) :
    ("simulations/" ++ toString community ++ "/" ++ folder ++ "/" ++ file).toList =
      segments community folder.toList file.toList := by
  have hslash : "/".toList = ['/'] := by simp
  rw [String.toList_append, String.toList_append, String.toList_append, String.toList_append,
    String.toList_append, hslash, List.append_assoc, List.append_assoc, List.append_assoc,
    List.append_assoc]
  rfl

theorem SourceKey.toList_text (k : SourceKey) :
    k.text.toList = segments k.community k.uuid.1.toList k.fileName.toList :=
  toList_segments _ _ _

theorem ResultKey.toList_text (k : ResultKey) :
    k.text.toList = segments k.community (toString k.simulation).toList "result.json".toList :=
  toList_segments _ _ _

/-- Different objects have different keys. -/
theorem ObjectKey.text_injective : Function.Injective ObjectKey.text := by
  intro a b heq
  have hlist : a.text.toList = b.text.toList := congrArg String.toList heq
  cases a with
  | source s =>
      cases b with
      | source s' =>
          rw [text, text, s.toList_text, s'.toList_text] at hlist
          obtain ⟨hc, hd, hf⟩ := segments_inj s.uuid.2.2 s'.uuid.2.2 hlist
          obtain ⟨c, u, f⟩ := s
          obtain ⟨c', u', f'⟩ := s'
          obtain rfl : c = c' := hc
          obtain rfl : u = u' := Subtype.ext (String.toList_inj.mp hd)
          obtain rfl : f = f' := String.toList_inj.mp hf
          rfl
      | result r =>
          rw [text, text, s.toList_text, r.toList_text] at hlist
          obtain ⟨-, hd, -⟩ := segments_inj s.uuid.2.2 (notMem_digits _ (by decide)) hlist
          -- a UUID has a hyphen, a number has none
          exact absurd (hd ▸ s.uuid.2.1) (notMem_digits _ (by decide))
  | result r =>
      cases b with
      | source s =>
          rw [text, text, s.toList_text, r.toList_text] at hlist
          obtain ⟨-, hd, -⟩ := segments_inj (notMem_digits _ (by decide)) s.uuid.2.2 hlist
          exact absurd (hd ▸ s.uuid.2.1) (notMem_digits _ (by decide))
      | result r' =>
          rw [text, text, r.toList_text, r'.toList_text] at hlist
          obtain ⟨hc, hd, -⟩ := segments_inj (notMem_digits _ (by decide))
            (notMem_digits _ (by decide)) hlist
          obtain ⟨c, n⟩ := r
          obtain ⟨c', n'⟩ := r'
          obtain rfl : c = c' := hc
          obtain rfl : n = n' := Nat.repr_inj.mp (String.toList_inj.mp hd)
          rfl

/-! ## Audit log -/

inductive AuditPayload where
  | created (name : String) (idKey : Nat) (keyName fileName injectionName : String)
  | createdFromCrm (name : String) (idKey : Nat) (keyName : String) (idSharingOperation : Nat)
      (periodStart periodEnd : Nat)
  | queueFailed (reason : String)
  | succeeded (iterationCount : Nat)
  | failed (errorMessage : String)
  | deleted (status : SimulationStatus)
  deriving DecidableEq, Repr

def AuditPayload.action : AuditPayload → String
  | created .. | createdFromCrm .. => "simulation_key.simulation.created"
  | queueFailed _ => "simulation_key.simulation.queue_failed"
  | succeeded _ => "simulation_key.simulation.succeeded"
  | failed _ => "simulation_key.simulation.failed"
  | deleted _ => "simulation_key.simulation.deleted"

structure AuditEntry where
  payload : AuditPayload
  entityId : Nat
  idCommunity : Nat
  deriving DecidableEq, Repr

/-- The status a worker's terminal entry records. -/
def AuditEntry.terminal (entry : AuditEntry) : Option SimulationStatus :=
  match entry.payload with
  | .succeeded _ => some .success
  | .failed _ => some .failed
  | _ => none

structure AuditLog where
  entries : List AuditEntry
  staged : List (SessionId × AuditEntry)

namespace AuditLog

variable (log : AuditLog) (me : SessionId)

def stage (entry : AuditEntry) : AuditLog := { log with staged := log.staged ++ [(me, entry)] }

def commit : AuditLog :=
  { entries := log.entries ++ (log.staged.filter (·.1 = me)).map (·.2)
    staged := log.staged.filter (·.1 ≠ me) }

def rollback : AuditLog := { log with staged := log.staged.filter (·.1 ≠ me) }

/-- The statuses that the worker's terminal entries record, staged ones too. -/
def terminals : List SimulationStatus :=
  log.entries.filterMap (·.terminal) ++ log.staged.filterMap (·.2.terminal)

theorem terminals_stage (entry : AuditEntry) :
    (log.stage me entry).terminals = log.terminals ++ entry.terminal.toList := by
  cases h : entry.terminal with
  | none => simp [terminals, stage, List.filterMap_append, h]
  | some status => simp [terminals, stage, List.filterMap_append, h]

theorem terminals_commit : (log.commit me).terminals.Perm log.terminals := by
  have hsplit := (List.filter_append_perm (fun x : SessionId × AuditEntry => x.1 = me)
    log.staged).filterMap (·.2.terminal)
  simp only [terminals, commit, List.filterMap_append, List.append_assoc, List.filterMap_map,
    Function.comp_def]
  refine List.Perm.append_left _ ?_
  simpa [List.filterMap_append] using hsplit

theorem terminals_rollback : (log.rollback me).terminals.Sublist log.terminals :=
  List.Sublist.append (List.Sublist.refl _) (List.filter_sublist.filterMap _)

end AuditLog

/-! ## The world -/

/-- The CRM tables the service reads. Readings are found by sharing operation
and by the days, the last one excluded, whose local midnights bound them. -/
structure CrmState (F : Type) where
  allocationKeys : Nat → Nat → Option (AllocationKeyModel F)
  sharingOperations : Nat → Nat → Bool
  meterConsumption : Nat → Nat → Nat → Nat → List (MeterConsumption F)

/-- A stored result holds a run's series. -/
structure ObjectStore (F B : Type) where
  sources : SourceKey → Option B
  results : ResultKey → Option (KeySimResult F)

namespace ObjectStore

variable {F B : Type} (store : ObjectStore F B)

def putSource (key : SourceKey) (content : B) : ObjectStore F B :=
  { store with sources := Function.update store.sources key (some content) }

def putResult (key : ResultKey) (series : KeySimResult F) : ObjectStore F B :=
  { store with results := Function.update store.results key (some series) }

/-- `delete`: best effort, and nothing for no key. -/
def delete : Option ObjectKey → ObjectStore F B
  | none => store
  | some (.source key) => { store with sources := Function.update store.sources key none }
  | some (.result key) => { store with results := Function.update store.results key none }

end ObjectStore

inductive Reply where
  | ack
  | nak
  deriving DecidableEq, Repr

structure MessageStream where
  published : List (String × Event)
  replies : List (Nat × Reply)

namespace MessageStream

variable (nats : MessageStream) (subject : String) (event : Event)

/-- The number of events stored. -/
def stored : Nat := nats.published.length

/-- `send_event`. -/
def publish : MessageStream :=
  { nats with published := nats.published ++ [(subject, event)] }

@[simp] theorem stored_publish : (nats.publish subject event).stored = nats.stored + 1 := by
  simp [stored, publish]

@[simp] theorem replies_publish : (nats.publish subject event).replies = nats.replies := rfl

@[simp] theorem stored_replies (replies : List (Nat × Reply)) :
    ({ nats with replies := replies } : MessageStream).stored = nats.stored := rfl

end MessageStream

/-- The worker's temporary files. -/
structure TempFiles (F : Type) where
  series : Nat → Option (KeySimResult F)
  next : Nat

/-- `F` are the floats, `B` the bytes of an upload. `started` says that a
request has set out to create the simulation; `finished` are the hints of the
`simulation.finished` events. -/
structure World (F B : Type) where
  started : Bool
  db : LocalDb F
  crm : CrmState F
  audit : AuditLog
  storage : ObjectStore F B
  nats : MessageStream
  files : TempFiles F
  finished : List SimulationStatus

end SimulationKey
