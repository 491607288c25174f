import SimulationKey.Backend.Runs
import SimulationKey.Worker.AloneDelivery

/-!
# One transient fault

A transient fault has the message NAK'd, fails no row and keeps the upload, except in
two places where nothing wraps it and the catch-all marks the row FAILED: the read of
the row, and a download whose error `_read_errors` leaves as it is.
-/

namespace SimulationKey.Theorems.Transient

open Kit Kit.Prog

variable {F B L : Type} [PyFloat F]

/-- The message is NAK'd, and nothing else; the row is not FAILED and the
uploads are as they were. -/
def Retried (t : Nat) (w w' : World F B) : Prop :=
  w'.nats.replies = w.nats.replies ++ [(t, .nak)] ∧
    (∃ row, w'.db.row = some row ∧ row.status ≠ .failed) ∧
      w'.storage.sources = w.storage.sources

omit [PyFloat F] in
/-- The transient faults of a download are the retryable errors of its read; the
unmapped ones are those of the transport that `_read_errors` does not list. -/
theorem site_readErrors {key : SourceKey} {error : StorageError} (h : error.retryable = true) :
    Stage.inputs.transient (.download key : Op F B) (readErrors key.text error) = true ∧
      (Stage.inputs.site (.download key : Op F B) (readErrors key.text error) = .unmapped ↔
        ∃ text, error = .transport false text) := by
  cases error with
  | client errorCode status text =>
      obtain ⟨hfound, hserver⟩ := (Bool.and_eq_true _ _).mp h
      have hstatus : status ≠ some 404 := by
        rintro rfl
        cases hserver
      have hmapped : ∃ text', readErrors key.text (.client errorCode status text) =
          .transientStorage text' := by
        rw [readErrors, if_neg (by simpa [hstatus] using hfound), if_pos hserver]
        exact ⟨_, rfl⟩
      obtain ⟨text', hmapped⟩ := hmapped
      rw [hmapped]
      exact ⟨rfl, iff_of_false (by simp [Stage.site]) (by simp)⟩
  | transport known text =>
      cases known with
      | true => exact ⟨rfl, iff_of_false (by simp [readErrors, Stage.site]) (by simp)⟩
      | false => exact ⟨rfl, iff_of_true rfl ⟨text, rfl⟩⟩

/-- Whatever operation one transient fault hits, the delivery is retried exactly when
the fault is met where it is wrapped. -/
theorem retried_iff {lib : Libraries F B L} {simulationId t : Nat} {delivered : Option Nat}
    {w : World F B} {row : SimulationModel} (hwaiting : Waiting row w)
    (hdelivered : delivered.any (maxDeliveries ≤ ·) = false) :
    Always (May t) (handleMessage lib simulationId delivered)
      { stage := .row, fault := .coming, world := w } fun _ s =>
        ∀ site, s.fault = .hit site → (Retried t w s.world ↔ site = .wrapped) := by
  refine (always_handleMessage lib hwaiting hdelivered).mono fun r s hends site hsite => ?_
  cases hends with
  | @failed row' site' bare hit committed status replies =>
      obtain rfl : site = site' := Fault.hit.inj (hsite.symm.trans hit)
      -- acked, not NAK'd
      refine iff_of_false (fun h => ?_) bare
      have hreply := replies.symm.trans h.1
      simp at hreply
  | @back row' hit committed status sources replies =>
      obtain rfl : site = .wrapped := Fault.hit.inj (hsite.symm.trans hit)
      exact iff_of_true ⟨replies, ⟨row', committed, status⟩, sources⟩ rfl
  | poison pill spared =>
      rw [spared] at hsite
      cases hsite
  | settled clean spared =>
      rw [spared] at hsite
      cases hsite

/-! ## A run -/

def isRowRead : Op F B → Bool
  | .getRow _ => true
  | _ => false

def isDownload : Op F B → Bool
  | .download _ => true
  | _ => false

/-- The delivery's fault hits the first operation of a kind that `e` can. -/
def hitFirst (kind : Op F B → Bool) (e : Exn) (t : Nat) (o : Op F B) (s : Lone F B) :
    Option (Except Exn o.Resp × Lone F B) :=
  if (s.fault = .coming ∧ kind o = true) ∧ s.stage.transient o e = true ∧
      (o.raises e && !o.closes) = true then
    some (.error e,
      { stage := s.stage.after o (.error e), fault := .hit (s.stage.site o e), world := s.world })
  else
    (answer t o s.world).map fun x =>
      (x.1, { stage := s.stage.after o x.1, fault := s.fault, world := x.2 })

theorem may_of_hitFirst {kind : Op F B → Bool} {e : Exn} {t : Nat} {o : Op F B} {s s' : Lone F B}
    {r : Except Exn o.Resp} (h : hitFirst kind e t o s = some (r, s')) : May t o s r s' := by
  unfold hitFirst at h
  split_ifs at h with hhit
  · obtain ⟨rfl, rfl⟩ := Prod.mk.inj (Option.some.inj h)
    exact .faults hhit.1.1 hhit.2.1 (Or.inl rfl) (by simp only [exec, if_pos hhit.2.2])
  · obtain ⟨⟨r', w⟩, hgo, hx⟩ := Option.map_eq_some_iff.mp h
    obtain ⟨rfl, rfl⟩ := Prod.mk.inj hx
    exact .goes hgo

theorem ends_of_hitFirst {α : Type} {kind : Op F B → Bool} {e : Exn} {t : Nat} {p : Act F B α}
    {s s' : Lone F B} {r : Except Exn α} {Q : Except Exn α → Lone F B → Prop}
    (h : Always (May t) p s Q) (hrun : p.run (hitFirst kind e t) s = some (r, s')) : Q r s' := by
  refine Always.of_run ?_ h hrun
  intro o s r s' hstep
  exact may_of_hitFirst hstep

/-- The first delivery of `smallRow`, its fault to come. -/
def smallStart : Lone ℚ Unit :=
  { stage := .row, fault := .coming, world := smallWorld (some smallRow) 1 "d" }

/-- Its run, and what is seen of it: the fault, the replies and the row's status. -/
def smallRun (kind : Op ℚ Unit → Bool) (e : Exn) : Option (Fault × List (Nat × Reply) ×
    Option SimulationStatus) :=
  ((handleMessage smallLib 1 (some 1)).run (hitFirst kind e 0) smallStart).map fun x =>
    (x.2.fault, x.2.world.nats.replies, x.2.world.db.row.map (·.status))

/-- The object that `smallRow` downloads. -/
def smallUpload : SourceKey := { community := 3, uuid := smallUuid, fileName := "data.csv" }

/-- The store refuses it for now. -/
def unavailable : StorageError := .client "SlowDown" (some 503) "please reduce your request rate"

/-- The connection closes while its body is read. -/
def bodyLost : StorageError := .transport false "Connection closed."

/-- A delivery whose download is refused for now: it is NAK'd and everything kept. -/
theorem retried_smallKey :
    ∃ r s, (handleMessage smallLib 1 (some 1)).run
        (hitFirst isDownload (readErrors smallUpload.text unavailable) 0) smallStart =
          some (r, s) ∧ Retried 0 smallStart.world s.world := by
  have hfault : ((handleMessage smallLib 1 (some 1)).run
      (hitFirst isDownload (readErrors smallUpload.text unavailable) 0) smallStart).map
        (fun x => x.2.fault) = some (.hit .wrapped) := by
    decide +kernel
  obtain ⟨⟨r, s⟩, hrun, hhit⟩ := Option.map_eq_some_iff.mp hfault
  refine ⟨r, s, hrun, ?_⟩
  have hwaiting : Waiting smallRow (smallWorld (some smallRow) 1 "d") := ⟨rfl, rfl, rfl⟩
  have hbelow : (some 1).any (maxDeliveries ≤ ·) = false := rfl
  have hends := ends_of_hitFirst (retried_iff hwaiting hbelow) hrun
  exact (hends .wrapped hhit).mpr rfl

/-- A delivery whose first read of the local database is hit, and one that loses the
connection in its download: both are acked, and the row is FAILED. -/
theorem row_read_fails_row :
    smallRun isRowRead (.other "connection refused") =
        some (.hit .rowRead, [(0, .ack)], some .failed) ∧
      smallRun isDownload (readErrors smallUpload.text bodyLost) =
        some (.hit .unmapped, [(0, .ack)], some .failed) ∧
      bodyLost.retryable = true ∧
      ¬ Always (May 0) (handleMessage smallLib 1 (some 1)) smallStart fun _ s =>
        ∀ site, s.fault = .hit site → Retried 0 smallStart.world s.world := by
  have hfailed : smallRun isRowRead (.other "connection refused") =
      some (.hit .rowRead, [(0, .ack)], some .failed) := by
    decide +kernel
  refine ⟨hfailed, by decide +kernel, rfl, fun hall => ?_⟩
  obtain ⟨⟨r, s⟩, hrun, hvalues⟩ := Option.map_eq_some_iff.mp hfailed
  obtain ⟨hhit, hrest⟩ := Prod.mk.inj hvalues
  have hretried := ends_of_hitFirst hall hrun .rowRead hhit
  have hreplies : [(0, Reply.ack)] = [(0, Reply.nak)] :=
    (Prod.mk.inj hrest).1.symm.trans hretried.1
  exact absurd hreplies (by decide)

end SimulationKey.Theorems.Transient
