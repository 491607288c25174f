import SimulationKey.Kit.Program
import SimulationKey.Kit.Settings
import SimulationKey.Kit.Text

/-!
# Durable subscriptions

`subscribe_durable` writes the settings the code declares onto a durable that already
exists, and subscribes. What the client library brings (the fields of a consumer's
configuration, their defaults, what the broker creates) is a parameter.
-/

namespace SimulationKey

open Kit Kit.Settings

/-- A consumer's configuration by field name. Values that are equal (`600` and `600.0`)
are one value. -/
abbrev ConsumerConfig (V : Type) := String → V

/-- `_RECONCILED_CONSUMER_FIELDS`. -/
def reconciledConsumerFields : List String :=
  ["ack_wait", "max_deliver", "max_ack_pending", "backoff"]

def durableNameField : String := "durable_name"

/-- What the client library and the broker bring. -/
structure JetStream (V : Type) where
  /-- The fields of `ConsumerConfig`. -/
  fields : List String
  /-- `ConsumerConfig()`. -/
  defaults : ConsumerConfig V
  /-- A value as the name of a durable. -/
  asName : V → String
  /-- `repr` of a value. -/
  reprOf : V → String
  /-- The configuration of the durable that `js.subscribe` creates. -/
  created : (subject durable : String) → ConsumerConfig V → ConsumerConfig V
  created_named : ∀ subject durable config,
    asName (created subject durable config durableNameField) = durable
  created_keeps : ∀ subject durable config, ∀ name ∈ reconciledConsumerFields,
    config name ≠ defaults name → created subject durable config name = config name

/-! ## The broker -/

/-- `JetStreamContext.PushSubscription`. -/
structure PushSubscription (C : Type) where
  subject : String
  stream : String
  durable : String
  queue : String
  manualAck : Bool
  cb : C

/-- The broker's consumers and the client's subscriptions. -/
structure Broker {V : Type} (js : JetStream V) (C : Type) where
  streamOf : String → Option String
  stored : (stream durable : String) → Option (ConsumerConfig V)
  named : ∀ stream durable config, stored stream durable = some config →
    js.asName (config durableNameField) = durable
  subscriptions : List (PushSubscription C)
  /-- The requests to write a consumer's configuration. -/
  updates : List (String × ConsumerConfig V)

section

variable {V C : Type} [DecidableEq V] (js : JetStream V)

/-- The consumers once a configuration is stored under the durable it names. -/
def putConsumer (stored : (stream durable : String) → Option (ConsumerConfig V)) (stream : String)
    (config : ConsumerConfig V) (stream' durable' : String) : Option (ConsumerConfig V) :=
  if stream' = stream ∧ durable' = js.asName (config durableNameField) then some config
  else stored stream' durable'

inductive BrokerError where
  | notFound (text : String)
  | api (text : String)
  | other (text : String)
  deriving DecidableEq, Repr

namespace BrokerError

def text : BrokerError → String
  | notFound text | api text | other text => text

/-- `NotFoundError` is an `APIError`. -/
def isApiError : BrokerError → Bool
  | notFound _ | api _ => true
  | other _ => false

end BrokerError

inductive QueueError where
  | value (text : String)
  | runtime (text : String)
  | broker (error : BrokerError)
  deriving DecidableEq, Repr

variable (V C) in
inductive QueueOp where
  | findStreamNameBySubject (subject : String)
  | consumerInfo (stream durable : String)
  | addConsumer (stream : String) (config : ConsumerConfig V)
  | subscribe (request : PushSubscription C) (config : ConsumerConfig V)

/-- What an operation returns. -/
def QueueOp.Resp : QueueOp V C → Type
  | findStreamNameBySubject _ => String
  | consumerInfo .. => ConsumerConfig V
  | addConsumer .. => Unit
  | subscribe .. => PushSubscription C

abbrev QueueProg (V C α : Type) := Prog (QueueOp V C) QueueOp.Resp QueueError α

/-! ## The program -/

def jsFindStream (subject : String) : QueueProg V C String :=
  Prog.perform (QueueOp.findStreamNameBySubject subject)

def jsConsumerInfo (stream durable : String) : QueueProg V C (ConsumerConfig V) :=
  Prog.perform (QueueOp.consumerInfo stream durable)

def jsAddConsumer (stream : String) (config : ConsumerConfig V) : QueueProg V C Unit :=
  Prog.perform (QueueOp.addConsumer stream config)

def jsSubscribe (request : PushSubscription C) (config : ConsumerConfig V) :
    QueueProg V C (PushSubscription C) :=
  Prog.perform (QueueOp.subscribe request config)

/-- `sorted(set(declared) - set(_RECONCILED_CONSUMER_FIELDS))`. -/
def unsupportedFields (declared : List (String × V)) : List String :=
  ((declared.map Prod.fst).filter (· ∉ reconciledConsumerFields)).mergeSort (· ≤ ·)

/-- `_declared_consumer_fields`. -/
def declaredConsumerFields (config : ConsumerConfig V) :
    Except QueueError (List (String × V)) :=
  let declared := declaredOf js.fields js.defaults config
  let unsupported := unsupportedFields declared
  if unsupported ≠ [] then
    .error (.value ("ConsumerConfig field(s) " ++ Text.commaJoin unsupported ++
      " would only apply when the durable is first created; js.subscribe ignores them on an " ++
      "existing one"))
  else .ok declared

/-- `str` of a dict of settings. -/
def reprSettings (settings : List (String × V)) : String :=
  "\x7b" ++ Text.commaJoin (settings.map fun x => Text.pyRepr x.1 ++ ": " ++ js.reprOf x.2) ++ "\x7d"

def couldNotUpdate (stream durable : String) (drift : List (String × V)) (cause : BrokerError) :
    QueueError :=
  .runtime ("JetStream consumer " ++ Text.pyRepr durable ++ " on stream " ++ Text.pyRepr stream ++
    " could not be updated to " ++ reprSettings js drift ++
    ". Delete it and let the worker recreate it, e.g. `nats consumer rm " ++ stream ++ " " ++
    durable ++ "`. Cause: " ++ cause.text)

/-- The stored configuration, `none` where the durable is not found. -/
def storedConfig (stream durable : String) : QueueProg V C (Option (ConsumerConfig V)) :=
  Prog.tryCatch (do
    let info ← jsConsumerInfo stream durable
    pure (some info)) fun error =>
    match error with
    | .broker (.notFound _) => pure none
    | error => Prog.raise error

/-- The stored configuration written with its drift. -/
def updateConsumer (stream durable : String) (current : ConsumerConfig V)
    (drift : List (String × V)) : QueueProg V C Unit :=
  Prog.tryCatch (jsAddConsumer stream (evolve current drift)) fun error =>
    match error with
    | .broker cause =>
      if cause.isApiError then Prog.raise (couldNotUpdate js stream durable drift cause)
      else Prog.raise error
    | error => Prog.raise error

def ensureConsumerConfig (stream durable : String) (config : ConsumerConfig V) :
    QueueProg V C Unit := do
  let declared ← Prog.ret (declaredConsumerFields js config)
  let info ← storedConfig stream durable
  match info with
  | none => pure ()
  | some current =>
    let drift := driftOf declared current
    if drift = [] then pure () else updateConsumer js stream durable current drift

/-- The given stream, or the one of the subject. -/
def findStream (subject : String) (stream : Option String) : QueueProg V C String :=
  match stream with
  | some stream => pure stream
  | none => jsFindStream subject

def subscribeDurable (subject durable : String) (cb : C) (config : ConsumerConfig V)
    (stream : Option String) : QueueProg V C (PushSubscription C) := do
  let stream ← findStream subject stream
  ensureConsumerConfig js stream durable config
  jsSubscribe ⟨subject, stream, durable, durable, true, cb⟩ config

/-! ## How operations end -/

variable {js}

/-- How an operation may end, and the broker it leaves, while no other client changes
the durable. What raises may or may not have been applied. -/
def BrokerMay (o : QueueOp V C) (b : Broker js C) (r : Except QueueError o.Resp)
    (b' : Broker js C) : Prop :=
  (∀ error, r = .error error → ∃ cause, error = .broker cause) ∧ b'.streamOf = b.streamOf ∧
  match o, r with
  | .findStreamNameBySubject subject, r =>
    b' = b ∧ ∀ stream, r = .ok stream → b.streamOf subject = some stream
  | .consumerInfo stream durable, r =>
    b' = b ∧ (∀ config, r = .ok config → b.stored stream durable = some config) ∧
      ∀ text, r = .error (.broker (.notFound text)) → b.stored stream durable = none
  | .addConsumer stream config, r =>
    b'.subscriptions = b.subscriptions ∧ b'.updates = b.updates ++ [(stream, config)] ∧
      (b'.stored = putConsumer js b.stored stream config ∨
        b'.stored = b.stored ∧ ∃ error, r = .error error)
  | .subscribe request config, r =>
    b'.updates = b.updates ∧
      (b'.subscriptions = b.subscriptions ++ [request] ∧ r = .ok request ∨
        b'.subscriptions = b.subscriptions ∧ ∃ error, r = .error error) ∧
      (b'.stored = b.stored ∧
          ((b.stored request.stream request.durable).isSome = true ∨ ∃ error, r = .error error) ∨
        b.stored request.stream request.durable = none ∧
          b'.stored = putConsumer js b.stored request.stream
            (js.created request.subject request.durable config))

end

end SimulationKey
