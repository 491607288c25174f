import Mathlib.Logic.Relation
import SimulationKey.Kit.History
import SimulationKey.Kit.JsonReader
import SimulationKey.Worker.Dispatcher

/-!
# A delivery and its heartbeat

`worker/dispatcher.py`: the handler of one delivery and the task that keeps the
delivery alive beside it. Both run on one loop: a task goes on where what it awaits
has ended, and between two such steps of one task the other may take any number.

A cancellation is delivered where the cancelled task goes on next. What the client
library does with a cancelled send is a parameter (`SendMay`).
-/

namespace SimulationKey

open Kit Kit.Prog Kit.Json

variable {F B L : Type}

/-! ## The message -/

/-- The last member of a name, the one `dict` keeps. -/
def lastMember (ms : List (List Nat × Json)) (name : String) : Option Json :=
  (ms.reverse.find? (·.1 = points name)).map (·.2)

/-- `Event.decode`: the event's data, `none` where it raises. -/
def decodeEvent (raw : List UInt8) : Option Json :=
  match loads false raw with
  | some (.obj ms) =>
    if (lastMember ms "type").isSome ∧ (lastMember ms "version").isSome then lastMember ms "data"
    else none
  | _ => none

/-- `data.get("simulation_id")` of a dict, if it is an `int`; `bool` is one. -/
def simulationIdOf (data : Json) : Option Int :=
  match data with
  | .obj ms =>
    match lastMember ms "simulation_id" with
    | some (.num lexeme) => Text.pyInt (String.ofList lexeme)
    | some (.bool b) => some b.toNat
    | _ => none
  | _ => none

inductive Incoming where
  | undecodable
  | invalidId
  | simulation (id : Int)
  deriving DecidableEq, Repr

def incomingOf (raw : List UInt8) : Incoming :=
  match decodeEvent raw with
  | none => .undecodable
  | some data =>
    match simulationIdOf data with
    | none => .invalidId
    | some id => .simulation id

/-- `_handle_message`. No row has an id below one. -/
def handleDelivery [PyFloat F] (lib : Libraries F B L) (raw : List UInt8) (delivered : Option Nat) :
    Act F B Unit :=
  match incomingOf raw with
  | .undecodable => await .ack
  | .invalidId => await .ack
  | .simulation id => handleMessage lib id.toNat delivered

/-! ## The heartbeat -/

/-- Where `_send_in_progress` is suspended, and whether its cancellation is to be
delivered there. A task that has not started yet is before its first sleep. -/
inductive Heartbeat where
  | sleeping (cancelling : Bool)
  | sending (cancelling : Bool)
  | ended
  deriving DecidableEq, Repr

namespace Heartbeat

/-- `heartbeat.cancel()`. -/
def cancel : Heartbeat → Heartbeat
  | sleeping _ => sleeping true
  | sending _ => sending true
  | ended => ended

/-- After `asyncio.sleep`. -/
def afterSleep : Except Exn Unit → Heartbeat
  | .ok _ => sending false
  | .error _ => ended

/-- After `msg.in_progress()`: an `Exception` is logged, and the loop goes on. -/
def afterSend : Except Exn Unit → Heartbeat
  | .ok _ => sleeping false
  | .error e => if e.isException then sleeping false else ended

/-- It has ended, or ends where it goes on next. -/
def stopping : Heartbeat → Bool
  | sleeping cancelling | sending cancelling => cancelling
  | ended => true

end Heartbeat

/-- What a suspended `msg.in_progress()` may do next: send its ack, or end. -/
inductive SendStep where
  | sends
  | ends (r : Except Exn Unit)

/-- What it may do, by whether a cancellation is delivered to it. -/
abbrev SendMay := Bool → SendStep → Prop

/-- A cancelled send sends nothing more and raises the cancellation. -/
def LetsThrough (may : SendMay) : Prop := ∀ s, may true s → s = .ends (.error .cancelled)

/-! ## The two tasks -/

/-- `Msg.Ack`, as far as it is sent for a delivery. -/
inductive MsgAck where
  | inProgress
  | ack
  | nak
  deriving DecidableEq, Repr

/-- It settles the delivery. -/
def MsgAck.settles : MsgAck → Bool
  | inProgress => false
  | ack | nak => true

/-- What an operation of the handler sends. -/
def replyOf : Op F B → Option MsgAck
  | .ack => some .ack
  | .nak => some .nak
  | _ => none

/-- The handler, before it calls an operation or awaiting it. -/
inductive Handler (F B : Type) where
  | ready (left : Act F B Unit)
  | awaiting (o : Op F B) (next : Except Exn o.Resp → Act F B Unit)

/-- A delivery in flight. -/
structure InFlight (F B : Type) where
  handler : Handler F B
  heartbeat : Heartbeat
  sent : List MsgAck
  answered : List (Answer (Op F B) Op.Resp Exn)

/-- The heartbeat is created on the way into `_process`. -/
def startDelivery [PyFloat F] (lib : Libraries F B L) (raw : List UInt8) (delivered : Option Nat) :
    InFlight F B where
  handler := .ready (handleDelivery lib raw delivered)
  heartbeat :=
    match incomingOf raw with
    | .simulation _ => .sleeping false
    | _ => .ended
  sent := []
  answered := []

/-- The heartbeat once the handler has called an operation. -/
def beatAfterCall (heartbeat : Heartbeat) : Op F B → Heartbeat
  | .stopHeartbeat => heartbeat.cancel
  | _ => heartbeat

/-- How what the handler awaits may end: `asyncio.wait` returns once the heartbeat has
ended, or raises the handler's own cancellation; anything else may end in any way. -/
def EndsAs (heartbeat : Heartbeat) : (o : Op F B) → Except Exn o.Resp → Prop
  | .stopHeartbeat, r => heartbeat = .ended ∧ r = .ok () ∨ r = .error .cancelled
  | _, _ => True

/-- One step of one of the tasks. -/
inductive Step (may : SendMay) : InFlight F B → InFlight F B → Prop where
  | call {o : Op F B} {next : Except Exn o.Resp → Act F B Unit} {heartbeat : Heartbeat}
      {sent : List MsgAck} {answered : List (Answer (Op F B) Op.Resp Exn)} :
      Step may ⟨.ready (.op o next), heartbeat, sent, answered⟩
        ⟨.awaiting o next, beatAfterCall heartbeat o, sent ++ (replyOf o).toList, answered⟩
  | answer {o : Op F B} {next : Except Exn o.Resp → Act F B Unit} {heartbeat : Heartbeat}
      {sent : List MsgAck} {answered : List (Answer (Op F B) Op.Resp Exn)}
      (r : Except Exn o.Resp) (ends : EndsAs heartbeat o r) :
      Step may ⟨.awaiting o next, heartbeat, sent, answered⟩
        ⟨.ready (next r), heartbeat, sent, answered ++ [⟨o, r⟩]⟩
  | wake {handler : Handler F B} {cancelling : Bool} {sent : List MsgAck}
      {answered : List (Answer (Op F B) Op.Resp Exn)} (r : Except Exn Unit)
      (ends : cancelling = true → r = .error .cancelled) :
      Step may ⟨handler, .sleeping cancelling, sent, answered⟩
        ⟨handler, .afterSleep r, sent, answered⟩
  | send {handler : Handler F B} {cancelling : Bool} {sent : List MsgAck}
      {answered : List (Answer (Op F B) Op.Resp Exn)} (ok : may cancelling .sends) :
      Step may ⟨handler, .sending cancelling, sent, answered⟩
        ⟨handler, .sending cancelling, sent ++ [.inProgress], answered⟩
  | sendEnds {handler : Handler F B} {cancelling : Bool} {sent : List MsgAck}
      {answered : List (Answer (Op F B) Op.Resp Exn)} (r : Except Exn Unit)
      (ok : may cancelling (.ends r)) :
      Step may ⟨handler, .sending cancelling, sent, answered⟩
        ⟨handler, .afterSend r, sent, answered⟩

/-- Any interleaving of the two tasks. -/
abbrev Interleaves (may : SendMay) : InFlight F B → InFlight F B → Prop :=
  Relation.ReflTransGen (Step may)

end SimulationKey
