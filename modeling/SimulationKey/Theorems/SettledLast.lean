import SimulationKey.Worker.Awaited
import SimulationKey.Worker.Heartbeat

/-!
# A delivery is settled once and last

The handler acks or naks a delivery at most once, after its heartbeat has ended. Where
the handler is cancelled while it waits for that end, the heartbeat outlives it; whether
another in-progress ack is sent is then up to the client.

* **programs** — `Unstopped` is what is left of the handler before it stops the
  heartbeat, `OneReply` after, `Silent` once nothing more is sent;
* **phases** — `Phase` says how far the handler has come and what it has sent; each
  step of either task keeps it (`phase_step`);
* **answers** — what `_process` was answered says how it ended, and after a
  cancellation no operation that sends is left (`silent_of_cancelled`).
-/

namespace SimulationKey.Theorems.SettledLast

open Kit Kit.Prog

variable {F B L : Type}

/-! ## Programs -/

/-- The operation acks, naks or stops the heartbeat. -/
def talks : Op F B → Bool
  | .ack | .nak | .stopHeartbeat => true
  | _ => false

/-- Nothing more is sent. -/
def Silent (p : Act F B Unit) : Prop := p.AllOps fun o => talks o = false

/-- One ack or nak is sent, at most, and the heartbeat is not stopped. -/
def OneReply : Act F B Unit → Prop
  | .ret _ => True
  | .op o next => (talks o = true → (replyOf o).isSome = true ∧ ∀ r, Silent (next r)) ∧
    (talks o = false → ∀ r, OneReply (next r))

/-- Before it is stopped the heartbeat runs, and nothing is sent; the end of a wait by a
cancellation is the last that is heard of the handler. -/
def Unstopped : Act F B Unit → Prop
  | .ret _ => False
  | .op o next => replyOf o = none ∧
    (talks o = true → (∀ r, OneReply (next r)) ∧ ∀ r, r = .error .cancelled → Silent (next r)) ∧
    (talks o = false → ∀ r, Unstopped (next r))

theorem replyOf_of_quiet {o : Op F B} (h : talks o = false) : replyOf o = none := by
  cases o <;> first | rfl | cases h

theorem OneReply.andThen {α : Type} {p : Act F B α} {f : Except Exn α → Act F B Unit}
    (hp : p.AllOps fun o => talks o = false) (hf : ∀ r, OneReply (f r)) :
    OneReply (p.andThen f) := by
  induction p with
  | ret outcome => exact hf outcome
  | op o next ih =>
      have ho : talks o = false := hp.1
      refine ⟨fun htalks => ?_, fun _ r => ih r (hp.2 r)⟩
      rw [ho] at htalks
      cases htalks

theorem Unstopped.andThen {α : Type} {p : Act F B α} {f : Except Exn α → Act F B Unit}
    (hp : p.AllOps fun o => talks o = false) (hf : ∀ r, Unstopped (f r)) :
    Unstopped (p.andThen f) := by
  induction p with
  | ret outcome => exact hf outcome
  | op o next ih =>
      have ho : talks o = false := hp.1
      refine ⟨replyOf_of_quiet ho, fun htalks => ?_, fun _ r => ih r (hp.2 r)⟩
      rw [ho] at htalks
      cases htalks

theorem oneReply_reply {o : Op F B} {next : Except Exn o.Resp → Act F B Unit}
    (ho : (replyOf o).isSome = true) (hnext : ∀ r, Silent (next r)) : OneReply (.op o next) := by
  refine ⟨fun _ => ⟨ho, hnext⟩, fun hquiet => ?_⟩
  rw [replyOf_of_quiet hquiet] at ho
  cases ho

/-! ## The handler -/

section Handler

variable {α : Type}

/-- What the worker awaits to process a message leaves the delivery and its heartbeat alone. -/
theorem quiet_of_processes {o : Op F B} (h : o.processes = true) : talks o = false := by
  cases o <;> first | rfl | cases h

variable [PyFloat F] (lib : Libraries F B L) (id : Nat)

theorem quiet_process (delivered : Option Nat) :
    (process lib id delivered).AllOps fun o => talks o = false :=
  (processes_process lib id delivered).mono fun _ => quiet_of_processes

omit [PyFloat F] in
theorem oneReply_unhandled : OneReply (F := F) (B := B)
    (saveFailure id "unhandled_worker_error" >>= fun _ => await .ack) := by
  refine OneReply.andThen ((processes_saveFailure id _).mono fun _ => quiet_of_processes) fun r => ?_
  cases r with
  | ok u => exact oneReply_reply rfl fun _ => trivial
  | error e => trivial

/-- `_process`, the end of the heartbeat, then the reply to how it ended. -/
theorem handleMessage_parts (delivered : Option Nat) :
    ∃ stopped : Except Exn (Option SourceKey) → Except Exn Unit → Act F B Unit,
      handleMessage lib id delivered =
        (process lib id delivered).andThen (fun outcome => .op .stopHeartbeat (stopped outcome)) ∧
      (∀ outcome r, OneReply (stopped outcome r)) ∧
      (∀ outcome, stopped outcome (.error .cancelled) = raise .cancelled) ∧
      stopped (.error .cancelled) (.ok ()) = raise .cancelled := by
  obtain ⟨reply, hhandle, hok, herror, hcancelled⟩ :
      ∃ reply : Except Exn (Option SourceKey) → Act F B Unit, handleMessage lib id delivered =
          ((process lib id delivered).ensuring (await .stopHeartbeat)).andThen reply ∧
        (∀ key, OneReply (reply (.ok key))) ∧ (∀ e, OneReply (reply (.error e))) ∧
        reply (.error .cancelled) = raise .cancelled := by
    refine ⟨_, rfl, fun key => ?_, fun e => ?_, rfl⟩
    · refine oneReply_reply rfl fun r => ?_
      rcases r with e | u
      · trivial
      · cases key with
        | none => trivial
        | some key => exact AllOps.perform rfl
    · cases e with
      | cancelled => trivial
      | transientError text => exact oneReply_reply rfl fun _ => trivial
      | _ => exact oneReply_unhandled id
  have hended : ∀ outcome : Except Exn (Option SourceKey), OneReply (reply outcome) := by
    intro outcome
    cases outcome with
    | ok key => exact hok key
    | error e => exact herror e
  refine ⟨fun outcome r => (Prog.ret r >>= fun _ => Prog.ret outcome : Act F B _).andThen reply,
    ?_, fun outcome r => ?_, fun outcome => hcancelled, hcancelled⟩
  · rw [hhandle, Prog.ensuring, andThen_assoc]
    refine congrArg _ (funext fun outcome => ?_)
    refine congrArg (Prog.op Op.stopHeartbeat) (funext fun r => ?_)
    cases r <;> rfl
  · cases r with
    | ok u => exact hended outcome
    | error e => exact herror e

theorem unstopped_handleMessage (delivered : Option Nat) :
    Unstopped (handleMessage lib id delivered) := by
  obtain ⟨stopped, hhandle, hreply, hcancelled, -⟩ := handleMessage_parts lib id delivered
  rw [hhandle]
  refine Unstopped.andThen (quiet_process lib id delivered) fun outcome => ?_
  refine ⟨rfl, fun _ => ⟨hreply outcome, fun r hr => ?_⟩, fun hquiet => by cases hquiet⟩
  rw [hr, hcancelled]
  trivial

end Handler

/-! ## Phases -/

/-- Whatever the handler does next, `P` holds of what is left then. -/
def Left (P : Act F B Unit → Prop) : Handler F B → Prop
  | .ready p => P p
  | .awaiting _ next => ∀ r, P (next r)

/-- Nothing sent settles the delivery. -/
def Unsettled (sent : List MsgAck) : Prop := ∀ a ∈ sent, a.settles = false

/-- The heartbeat ends where it goes on next, if the client lets a cancellation through. -/
def Stops (may : SendMay) (heartbeat : Heartbeat) : Prop :=
  LetsThrough may → heartbeat.stopping = true

/-- The handler was cancelled while it waited for its heartbeat to stop. -/
def WaitCancelled (c : InFlight F B) : Prop :=
  (⟨.stopHeartbeat, .error .cancelled⟩ : Answer (Op F B) Op.Resp Exn) ∈ c.answered

/-- How far the delivery has come. -/
inductive Phase (may : SendMay) (c : InFlight F B) : Prop where
  /-- The heartbeat is not stopped. -/
  | unstopped (left : Left Unstopped c.handler) (sent : Unsettled c.sent)
  /-- It is being waited for. -/
  | stopping {next : Except Exn Unit → Act F B Unit}
      (handler : c.handler = .awaiting .stopHeartbeat next) (left : ∀ r, OneReply (next r))
      (cancelled : Silent (next (.error .cancelled))) (heartbeat : Stops may c.heartbeat)
      (sent : Unsettled c.sent)
  /-- It has ended. -/
  | stopped (left : Left OneReply c.handler) (heartbeat : c.heartbeat = .ended)
      (sent : Unsettled c.sent)
  /-- The reply is sent. -/
  | replied (left : Left Silent c.handler) (heartbeat : c.heartbeat = .ended)
      (sent : ∃ before a, c.sent = before ++ [a] ∧ Unsettled before)
  /-- The wait was cancelled. -/
  | aborted (left : Left Silent c.handler) (waited : WaitCancelled c)
      (heartbeat : Stops may c.heartbeat) (sent : Unsettled c.sent)

theorem unsettled_inProgress {sent : List MsgAck} (h : Unsettled sent) :
    Unsettled (sent ++ [.inProgress]) := by
  intro a ha
  rcases List.mem_append.mp ha with ha | ha
  · exact h a ha
  · rw [List.mem_singleton.mp ha]
    rfl

theorem beatAfterCall_of_quiet {o : Op F B} (h : talks o = false) (heartbeat : Heartbeat) :
    beatAfterCall heartbeat o = heartbeat := by
  cases o <;> first | rfl | cases h

theorem stopping_cancel (heartbeat : Heartbeat) : heartbeat.cancel.stopping = true := by
  cases heartbeat <;> rfl

/-- An operation that talks and sends nothing stops the heartbeat. -/
theorem eq_stopHeartbeat {o : Op F B} (htalks : talks o = true) (hreply : replyOf o = none) :
    o = .stopHeartbeat := by
  cases o <;> simp_all [talks, replyOf]

theorem phase_call {may : SendMay} {o : Op F B} {next : Except Exn o.Resp → Act F B Unit}
    {heartbeat : Heartbeat} {sent : List MsgAck} {answered : List (Answer (Op F B) Op.Resp Exn)}
    (h : Phase may ⟨.ready (.op o next), heartbeat, sent, answered⟩) :
    Phase may ⟨.awaiting o next, beatAfterCall heartbeat o, sent ++ (replyOf o).toList, answered⟩ := by
  have hsame : ∀ {sent' : List MsgAck}, replyOf o = none → sent' ++ (replyOf o).toList = sent' := by
    intro sent' hnone
    rw [hnone, Option.toList_none, List.append_nil]
  cases h with
  | unstopped left hsent =>
      obtain ⟨hreply, htalks, hquiet⟩ := left
      rw [hsame hreply]
      cases ho : talks o with
      | false => exact .unstopped (hquiet ho) hsent
      | true =>
          obtain rfl := eq_stopHeartbeat ho hreply
          exact .stopping rfl (htalks ho).1 ((htalks ho).2 _ rfl) (fun _ => stopping_cancel _) hsent
  | stopping handler => cases handler
  | stopped left hbeat hsent =>
      obtain rfl : heartbeat = .ended := hbeat
      have hended : beatAfterCall .ended o = .ended := by cases o <;> rfl
      cases ho : talks o with
      | false =>
          rw [hended, hsame (replyOf_of_quiet ho)]
          exact .stopped (left.2 ho) rfl hsent
      | true =>
          obtain ⟨hreply, hsilent⟩ := left.1 ho
          obtain ⟨a, ha⟩ := Option.isSome_iff_exists.mp hreply
          rw [hended, ha]
          exact .replied hsilent rfl ⟨sent, a, rfl, hsent⟩
  | replied left hbeat hsent =>
      have ho : talks o = false := left.1
      rw [beatAfterCall_of_quiet ho, hsame (replyOf_of_quiet ho)]
      exact .replied left.2 hbeat hsent
  | aborted left waited hbeat hsent =>
      have ho : talks o = false := left.1
      rw [beatAfterCall_of_quiet ho, hsame (replyOf_of_quiet ho)]
      exact .aborted left.2 waited hbeat hsent

theorem phase_answer {may : SendMay} {o : Op F B} {next : Except Exn o.Resp → Act F B Unit}
    {heartbeat : Heartbeat} {sent : List MsgAck} {answered : List (Answer (Op F B) Op.Resp Exn)}
    {r : Except Exn o.Resp} (ends : EndsAs heartbeat o r)
    (h : Phase may ⟨.awaiting o next, heartbeat, sent, answered⟩) :
    Phase may ⟨.ready (next r), heartbeat, sent, answered ++ [⟨o, r⟩]⟩ := by
  cases h with
  | unstopped left hsent => exact .unstopped (left r) hsent
  | stopping handler left cancelled hbeat hsent =>
      cases handler
      rcases ends with ⟨hended, rfl⟩ | rfl
      · exact .stopped (left _) hended hsent
      · exact .aborted cancelled (List.mem_append_right _ (List.mem_singleton.mpr rfl)) hbeat hsent
  | stopped left hbeat hsent => exact .stopped (left r) hbeat hsent
  | replied left hbeat hsent => exact .replied (left r) hbeat hsent
  | aborted left waited hbeat hsent =>
      exact .aborted (left r) (List.mem_append_left _ waited) hbeat hsent

/-- A step of the heartbeat, which has not ended. -/
theorem phase_beat {may : SendMay} {c : InFlight F B} (h : Phase may c) {heartbeat' : Heartbeat}
    {sent' : List MsgAck} (hrunning : c.heartbeat ≠ .ended)
    (hstops : Stops may c.heartbeat → Stops may heartbeat')
    (hsent : Unsettled c.sent → Unsettled sent') :
    Phase may { c with heartbeat := heartbeat', sent := sent' } := by
  cases h with
  | unstopped left sent => exact .unstopped left (hsent sent)
  | stopping handler left cancelled heartbeat sent =>
      exact .stopping handler left cancelled (hstops heartbeat) (hsent sent)
  | stopped left heartbeat sent => exact absurd heartbeat hrunning
  | replied left heartbeat sent => exact absurd heartbeat hrunning
  | aborted left waited heartbeat sent =>
      exact .aborted left waited (hstops heartbeat) (hsent sent)

theorem phase_step {may : SendMay} {c c' : InFlight F B} (h : Phase may c)
    (hstep : Step may c c') : Phase may c' := by
  cases hstep with
  | call => exact phase_call h
  | answer r ends => exact phase_answer ends h
  | @wake handler cancelling sent answered r ends =>
      refine phase_beat h (by simp) (fun hstops hlets => ?_) id
      obtain rfl : cancelling = true := hstops hlets
      rw [ends rfl]
      rfl
  | @send handler cancelling sent answered ok =>
      exact phase_beat h (by simp) id unsettled_inProgress
  | @sendEnds handler cancelling sent answered r ok =>
      refine phase_beat h (by simp) (fun hstops hlets => ?_) id
      obtain rfl : cancelling = true := hstops hlets
      obtain rfl : r = .error .cancelled := by simpa using hlets _ ok
      rfl

theorem phase_run {may : SendMay} {c c' : InFlight F B} (h : Phase may c)
    (hrun : Interleaves may c c') : Phase may c' := by
  induction hrun with
  | refl => exact h
  | tail _ hstep ih => exact phase_step ih hstep

/-! ## What a phase says -/

theorem filter_of_unsettled {sent : List MsgAck} (h : Unsettled sent) :
    sent.filter (·.settles) = [] := by
  rw [List.filter_eq_nil_iff]
  intro a ha
  simp [h a ha]

variable {may : SendMay} {c c' : InFlight F B}

theorem Phase.sent (h : Phase may c) :
    Unsettled c.sent ∨ ∃ before a, c.sent = before ++ [a] ∧ Unsettled before := by
  cases h with
  | unstopped _ sent | stopping _ _ _ _ sent | stopped _ _ sent | aborted _ _ _ sent =>
      exact .inl sent
  | replied _ _ sent => exact .inr sent

theorem Phase.once (h : Phase may c) : (c.sent.filter (·.settles)).length ≤ 1 := by
  rcases h.sent with hnone | ⟨before, a, hsent, hbefore⟩
  · simp [filter_of_unsettled hnone]
  · rw [hsent, List.filter_append, filter_of_unsettled hbefore, List.nil_append]
    exact List.length_filter_le _ [a]

theorem Phase.last (h : Phase may c) {before after : List MsgAck} {a : MsgAck}
    (hsent : c.sent = before ++ a :: after) (ha : a.settles = true) : after = [] := by
  have hsettled : ∀ {sent : List MsgAck}, Unsettled sent → a ∉ sent := by
    intro sent hnone hmem
    rw [hnone a hmem] at ha
    cases ha
  rcases h.sent with hnone | ⟨before', a', hlast, hbefore⟩
  · refine absurd ?_ (hsettled hnone)
    rw [hsent]
    simp
  · by_contra hne
    -- the last one sent is among `after`, so `a` is among those before it
    have hdrop : before' = before ++ a :: after.dropLast := by
      have heq := congrArg List.dropLast (hlast.symm.trans hsent)
      rwa [List.dropLast_concat, List.dropLast_append_of_ne_nil (List.cons_ne_nil _ _),
        List.dropLast_cons_of_ne_nil hne] at heq
    refine absurd ?_ (hsettled hbefore)
    rw [hdrop]
    simp

/-- Once the handler has ended, its heartbeat has, or ends where it goes on next. -/
theorem Phase.stops (h : Phase may c) {outcome : Except Exn Unit}
    (hended : c.handler = .ready (.ret outcome)) :
    c.heartbeat = .ended ∨ WaitCancelled c ∧ Stops may c.heartbeat := by
  cases h with
  | unstopped left =>
      rw [hended] at left
      exact left.elim
  | stopping handler =>
      rw [hended] at handler
      cases handler
  | stopped _ heartbeat | replied _ heartbeat => exact .inl heartbeat
  | aborted _ waited heartbeat => exact .inr ⟨waited, heartbeat⟩

/-- After the end of both tasks nothing happens. -/
theorem quiet_of_ended {outcome : Except Exn Unit} (hended : c.handler = .ready (.ret outcome))
    (hbeat : c.heartbeat = .ended) (hrun : Interleaves may c c') : c' = c := by
  induction hrun with
  | refl => rfl
  | tail _ hstep ih =>
      subst ih
      cases hstep with
      | call | answer => cases hended
      | wake | send | sendEnds => cases hbeat

theorem quiet_step (hlets : LetsThrough may) {outcome : Except Exn Unit}
    (hended : c.handler = .ready (.ret outcome)) (hstops : c.heartbeat.stopping = true)
    (hstep : Step may c c') :
    c'.sent = c.sent ∧ c'.handler = c.handler ∧ c'.heartbeat.stopping = true := by
  cases hstep with
  | call => cases hended
  | answer r ends => cases hended
  | @wake handler cancelling sent answered r ends =>
      obtain rfl : cancelling = true := hstops
      rw [ends rfl]
      exact ⟨rfl, rfl, rfl⟩
  | @send handler cancelling sent answered ok =>
      obtain rfl : cancelling = true := hstops
      cases hlets _ ok
  | @sendEnds handler cancelling sent answered r ok =>
      obtain rfl : cancelling = true := hstops
      obtain rfl : r = .error .cancelled := by simpa using hlets _ ok
      exact ⟨rfl, rfl, rfl⟩

/-- After the handler's end nothing more is sent. -/
theorem quiet_run (hlets : LetsThrough may) {outcome : Except Exn Unit}
    (hended : c.handler = .ready (.ret outcome)) (hstops : c.heartbeat.stopping = true)
    (hrun : Interleaves may c c') :
    c'.sent = c.sent ∧ c'.handler = c.handler ∧ c'.heartbeat.stopping = true := by
  induction hrun with
  | refl => exact ⟨rfl, rfl, hstops⟩
  | tail _ hstep ih =>
      obtain ⟨hsent, hhandler, hstops'⟩ := ih
      obtain ⟨hsent', hhandler', hstops''⟩ := quiet_step hlets (hhandler.trans hended) hstops' hstep
      exact ⟨hsent'.trans hsent, hhandler'.trans hhandler, hstops''⟩

/-! ## How `_process` ended -/

/-- What is left of the handler. -/
def program : Handler F B → Act F B Unit
  | .ready p => p
  | .awaiting o next => .op o next

/-- A wait for the heartbeat ends with it, or is cancelled. -/
def EndsWait : (o : Op F B) → Except Exn o.Resp → Prop
  | .stopHeartbeat, r => r = .ok () ∨ r = .error .cancelled
  | _, _ => True

/-- What the handler was answered, and what it has sent for it. -/
structure Told (p : Act F B Unit) (c : InFlight F B) : Prop where
  after : p.After c.answered (program c.handler)
  waits : ∀ x ∈ c.answered, EndsWait x.1 x.2
  sent : ∀ a ∈ c.sent, a.settles = true → ∃ o, (replyOf o).isSome = true ∧
    ((∃ x ∈ c.answered, x.1 = o) ∨ ∃ next, c.handler = .awaiting o next)

theorem endsWait_of_endsAs {heartbeat : Heartbeat} {o : Op F B} {r : Except Exn o.Resp}
    (h : EndsAs heartbeat o r) : EndsWait o r := by
  cases o with
  | stopHeartbeat => exact h.imp_left And.right
  | _ => trivial

theorem told_step {p : Act F B Unit} (h : Told p c) (hstep : Step may c c') : Told p c' := by
  obtain ⟨hafter, hwaits, hsent⟩ := h
  cases hstep with
  | @call o next heartbeat sent answered =>
      refine ⟨hafter, hwaits, fun a ha hsettles => ?_⟩
      rcases List.mem_append.mp ha with ha | ha
      · obtain ⟨o', ho', hanswered | ⟨next', hawaiting⟩⟩ := hsent a ha hsettles
        · exact ⟨o', ho', .inl hanswered⟩
        · cases hawaiting
      · refine ⟨o, ?_, .inr ⟨next, rfl⟩⟩
        rw [Option.mem_toList.mp ha]
        rfl
  | @answer o next heartbeat sent answered r ends =>
      refine ⟨hafter.snoc r, fun x hx => ?_, fun a ha hsettles => ?_⟩
      · rcases List.mem_append.mp hx with hx | hx
        · exact hwaits x hx
        · rw [List.mem_singleton.mp hx]
          exact endsWait_of_endsAs ends
      · obtain ⟨o', ho', ⟨x, hx, heq⟩ | ⟨next', hawaiting⟩⟩ := hsent a ha hsettles
        · exact ⟨o', ho', .inl ⟨x, List.mem_append_left _ hx, heq⟩⟩
        · refine ⟨o', ho', .inl ⟨⟨o, r⟩, List.mem_append_right _ (List.mem_singleton.mpr rfl), ?_⟩⟩
          cases hawaiting
          rfl
  | wake r ends => exact ⟨hafter, hwaits, hsent⟩
  | send ok =>
      refine ⟨hafter, hwaits, fun a ha hsettles => ?_⟩
      rcases List.mem_append.mp ha with ha | ha
      · exact hsent a ha hsettles
      · rw [List.mem_singleton.mp ha] at hsettles
        cases hsettles
  | sendEnds r ok => exact ⟨hafter, hwaits, hsent⟩

theorem told_run {p : Act F B Unit} (h : Told p c) (hrun : Interleaves may c c') : Told p c' := by
  induction hrun with
  | refl => exact h
  | tail _ hstep ih => exact told_step ih hstep

variable [PyFloat F] {lib : Libraries F B L} {id : Nat} {delivered : Option Nat}

/-- After a cancellation of `_process` nothing settles the delivery. -/
theorem silent_of_cancelled (h : Told (handleMessage lib id delivered) c)
    {answers : List (Answer (Op F B) Op.Resp Exn)} (hfront : answers <+: c.answered)
    (hcancelled : (process lib id delivered).After answers (.ret (.error .cancelled))) :
    Unsettled c.sent := by
  obtain ⟨stopped, hhandle, -, hwait, hok⟩ := handleMessage_parts lib id delivered
  obtain ⟨rest, hrest⟩ := hfront
  have hquiet := quiet_process lib id delivered
  obtain ⟨hafter, hwaits, hsent⟩ := h
  -- what the handler goes on with after `_process`
  have hlater : (Prog.op Op.stopHeartbeat (stopped (.error .cancelled))).After rest
      (program c.handler) := by
    rw [hhandle, ← hrest] at hafter
    obtain ⟨m, hm, hlater⟩ := hafter.of_append
    rwa [hm.unique hcancelled.andThen] at hlater
  have hraised : ∀ r, r = .ok () ∨ r = .error .cancelled →
      stopped (.error .cancelled) r = raise .cancelled := by
    rintro r (rfl | rfl)
    · exact hok
    · exact hwait _
  intro a ha
  by_contra hsettles
  obtain ⟨o, ho, hfound⟩ := hsent a ha (by simpa using hsettles)
  have hno : ∀ o' : Op F B, talks o' = false ∨ o' = .stopHeartbeat → o' ≠ o := by
    rintro o' (hquiet' | rfl) rfl
    · rw [replyOf_of_quiet hquiet'] at ho
      cases ho
    · cases ho
  have hanswered : ∀ x ∈ answers, x.1 ≠ o := fun x hx =>
    hno x.1 (.inl (hquiet.answered hcancelled x hx))
  generalize hleft : program c.handler = left at hlater
  cases hlater with
  | refl =>
      rcases hfound with ⟨x, hx, heq⟩ | ⟨next, hawaiting⟩
      · rw [← hrest, List.append_nil] at hx
        exact hanswered x hx heq
      · rw [hawaiting] at hleft
        exact hno o (.inr (Prog.op.inj hleft).1) rfl
  | @op _ _ r rest q hq =>
      have hwaited : EndsWait (Op.stopHeartbeat : Op F B) r :=
        hwaits ⟨.stopHeartbeat, r⟩ (hrest ▸ List.mem_append_right _ (List.mem_cons_self ..))
      rw [hraised r hwaited] at hq
      cases hq
      rcases hfound with ⟨x, hx, heq⟩ | ⟨next, hawaiting⟩
      · rw [← hrest] at hx
        rcases List.mem_append.mp hx with hx | hx
        · exact hanswered x hx heq
        · rw [List.mem_singleton.mp hx] at heq
          exact hno _ (.inr rfl) heq
      · rw [hawaiting] at hleft
        cases hleft

/-! ## Every delivery -/

/-- A message without a simulation has no heartbeat, and is acked. -/
theorem phase_start (raw : List UInt8) : Phase may (startDelivery lib raw delivered) := by
  have hnone : Unsettled [] := fun _ h => absurd h List.not_mem_nil
  have hack : OneReply (await .ack : Act F B Unit) := oneReply_reply rfl fun _ => trivial
  cases hraw : incomingOf raw with
  | undecodable | invalidId =>
      refine .stopped ?_ ?_ hnone
      · simpa [startDelivery, handleDelivery, Left, hraw] using hack
      · simp [startDelivery, hraw]
  | simulation id =>
      refine .unstopped ?_ hnone
      simpa [startDelivery, handleDelivery, Left, hraw] using
        unstopped_handleMessage lib id.toNat delivered

/-- However the handler and its heartbeat interleave, and however what they await ends:
the delivery is acked or nak'd at most once, and that is the last that is sent for it;
not at all once `_process` has ended by a cancellation; and nothing is sent once the
handler has ended, where its wait for the heartbeat was not cancelled or the client lets
a cancellation through. -/
theorem settled_once_and_last (lib : Libraries F B L) (raw : List UInt8) (delivered : Option Nat)
    (may : SendMay) {c : InFlight F B}
    (hrun : Interleaves may (startDelivery lib raw delivered) c) :
    (c.sent.filter (·.settles)).length ≤ 1 ∧
    (∀ before a after, c.sent = before ++ a :: after → a.settles = true → after = []) ∧
    (∀ id answers, incomingOf raw = .simulation id → answers <+: c.answered →
      (process lib id.toNat delivered).After answers (.ret (.error .cancelled)) →
        ∀ a ∈ c.sent, a.settles = false) ∧
    (∀ outcome, c.handler = .ready (.ret outcome) → ¬ WaitCancelled c ∨ LetsThrough may →
      ∀ c', Interleaves may c c' → c'.sent = c.sent) := by
  have hphase := phase_run (phase_start raw) hrun
  refine ⟨hphase.once, fun before a after hsent ha => hphase.last hsent ha, ?_, ?_⟩
  · intro id answers hraw hfront hcancelled
    have hstart : Told (handleMessage lib id.toNat delivered) (startDelivery lib raw delivered) := by
      refine ⟨?_, fun _ hx => absurd hx List.not_mem_nil, fun _ ha => absurd ha List.not_mem_nil⟩
      have hprogram : program (startDelivery lib raw delivered).handler =
          handleMessage lib id.toNat delivered := by
        simp [startDelivery, handleDelivery, program, hraw]
      rw [hprogram]
      exact .refl _
    exact silent_of_cancelled (told_run hstart hrun) hfront hcancelled
  · intro outcome hended hwaits c' hlater
    rcases hphase.stops hended with hbeat | ⟨hwaited, hstops⟩
    · rw [quiet_of_ended hended hbeat hlater]
    · have hlets := hwaits.resolve_left (not_not_intro hwaited)
      exact (quiet_run hlets hended (hstops hlets) hlater).1

/-! ## A delivery that is cut off -/

/-- `\x7b"type": "run", "version": 1, "data": \x7b"simulation_id": 7\x7d\x7d`. -/
def runEvent : List UInt8 :=
  "\x7b\"type\": \"run\", \"version\": 1, \"data\": \x7b\"simulation_id\": 7\x7d\x7d".toUTF8.toList

/-- No upload is read. -/
def noUploads : Libraries ℚ Unit Unit where
  lower s := s
  readCsv _ := .error ""
  readExcel _ := .error ""
  str _ := ""
  size _ := 0
  measure _ _ := none

/-- A client that raises the cancellation of a send. -/
def raisesCancelled : SendMay := fun cancelling s =>
  cancelling = true → s = .ends (.error .cancelled)

/-- A client whose send returns where it is cancelled. -/
def swallowsCancelled : SendMay := fun cancelling s => cancelling = true → s = .ends (.ok ())

/-- The snapshot is cancelled while an in-progress ack is in flight, and so is the wait. -/
def cutOff : InFlight ℚ Unit where
  handler := .ready (.ret (.error .cancelled))
  heartbeat := .sending true
  sent := [.inProgress]
  answered := [⟨.getRow .own, .error .cancelled⟩, ⟨.closeLocal .own, .ok ()⟩,
    ⟨.stopHeartbeat, .error .cancelled⟩]

theorem incomingOf_runEvent : incomingOf runEvent = .simulation 7 := by decide +kernel

theorem interleaves_cutOff {may : SendMay} (hsends : may false .sends) :
    Interleaves may (startDelivery noUploads runEvent (some 1)) cutOff := by
  have hstart : startDelivery noUploads runEvent (some 1) =
      ⟨.ready (handleMessage noUploads 7 (some 1)), .sleeping false, [], []⟩ := by
    simp [startDelivery, handleDelivery, incomingOf_runEvent]
  obtain ⟨k₁, k₂, k₃, hhandle, hclose, hstop, hend⟩ : ∃ k₁ k₂ k₃,
      handleMessage noUploads 7 (some 1) = .op (.getRow .own) k₁ ∧
        k₁ (.error .cancelled) = .op (.closeLocal .own) k₂ ∧
        k₂ (.ok ()) = .op .stopHeartbeat k₃ ∧
        k₃ (.error .cancelled) = .ret (.error .cancelled) := ⟨_, _, _, rfl, rfl, rfl, rfl⟩
  rw [hstart, hhandle]
  -- the heartbeat wakes and sends
  refine .head (.wake (.ok ()) (by simp)) ?_
  refine .head (.send hsends) ?_
  -- the handler is cancelled in its snapshot
  refine .head .call (.head (.answer (.error .cancelled) trivial) ?_)
  rw [hclose]
  refine .head .call (.head (.answer (.ok ()) trivial) ?_)
  rw [hstop]
  -- and again while it waits for the heartbeat
  refine .head .call (.head (.answer (.error .cancelled) (.inr rfl)) ?_)
  rw [hend]
  exact .refl

theorem cutOff_settled : (∀ a ∈ cutOff.sent, a.settles = false) ∧
    ∀ c', Interleaves raisesCancelled cutOff c' → c'.sent = [.inProgress] := by
  have hrun : Interleaves raisesCancelled (startDelivery noUploads runEvent (some 1)) cutOff :=
    interleaves_cutOff (by simp [raisesCancelled])
  obtain ⟨-, -, hcancelled, hended⟩ :=
    settled_once_and_last noUploads runEvent (some 1) raisesCancelled hrun
  refine ⟨hcancelled 7 (cutOff.answered.take 2) incomingOf_runEvent (List.take_prefix 2 _)
    (.op (.op (.refl _))), ?_⟩
  exact hended _ rfl (.inr fun s hs => hs rfl)

/-- The client returns from the cancelled send, and the heartbeat goes on: another
in-progress ack is sent after the handler's end. -/
theorem sent_after_end :
    ¬ ∀ (may : SendMay) (c : InFlight ℚ Unit),
      Interleaves may (startDelivery noUploads runEvent (some 1)) c →
        ∀ outcome, c.handler = .ready (.ret outcome) →
          ∀ c', Interleaves may c c' → c'.sent = c.sent := by
  intro hclaim
  have hends := hclaim swallowsCancelled cutOff (interleaves_cutOff (by simp [swallowsCancelled]))
    (.error .cancelled) rfl
  have hagain : Interleaves swallowsCancelled cutOff
      { cutOff with heartbeat := .sending false, sent := [.inProgress, .inProgress] } := by
    refine .head (.sendEnds (.ok ()) fun _ => rfl) ?_
    refine .head (.wake (.ok ()) (by simp)) ?_
    exact .single (.send (by simp [swallowsCancelled]))
  exact absurd (hends _ hagain) (by decide)

end SimulationKey.Theorems.SettledLast
