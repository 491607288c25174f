import SimulationKey.Core.QueueHelper

/-!
# Settings of a durable

A subscription that exists is bound to a durable with the settings the code declares,
whether `js.subscribe` created it or it was there before.

Each part has one triple: where the stream comes from (`findStream_always`), what is
read of the durable (`storedConfig_always`), what `ensure_consumer_config` leaves
(`ensureConsumerConfig_always`). The stored configuration evolved by its drift has
the declared values and keeps the others (`reaches_evolve`).
-/

namespace SimulationKey.Theorems.ConsumerSettings

open Kit Kit.Prog Kit.Settings

variable {V C : Type} [DecidableEq V] {js : JetStream V} {b : Broker js C}
  {subject durable : String} {cb : C} {config : ConsumerConfig V} {stream : Option String}

/-! ## What is promised -/

/-- The configuration sets the field. -/
def Sets (js : JetStream V) (config : ConsumerConfig V) (name : String) : Prop :=
  name ∈ js.fields ∧ config name ≠ js.defaults name

/-- Every field set is one that is reconciled. -/
def Supported (js : JetStream V) (config : ConsumerConfig V) : Prop :=
  ∀ name, Sets js config name → name ∈ reconciledConsumerFields

/-- The stored configuration has every field the declared one sets. -/
def InStep (js : JetStream V) (config stored : ConsumerConfig V) : Prop :=
  ∀ name, Sets js config name → stored name = config name

/-- A configuration with the declared fields, and the other ones as they were. -/
structure Reaches (js : JetStream V) (config : ConsumerConfig V) (before : Option (ConsumerConfig V))
    (after : ConsumerConfig V) : Prop where
  inStep : InStep js config after
  kept : ∀ old, before = some old → ∀ name, ¬ Sets js config name → after name = old name

/-- The stream the durable is looked for on. -/
def OnStream (b : Broker js C) (subject : String) (stream : Option String) (name : String) : Prop :=
  stream = some name ∨ stream = none ∧ b.streamOf subject = some name

/-! ## Declared fields -/

theorem mem_declared {x : String × V} : x ∈ declaredOf js.fields js.defaults config ↔
    Sets js config x.1 ∧ x.2 = config x.1 :=
  mem_declaredOf

theorem unsupportedFields_eq_nil_iff :
    unsupportedFields (declaredOf js.fields js.defaults config) = [] ↔ Supported js config := by
  rw [unsupportedFields, ← List.length_eq_zero_iff, List.length_mergeSort, List.length_eq_zero_iff,
    List.filter_eq_nil_iff]
  constructor
  · intro h name hset
    have hmem : name ∈ (declaredOf js.fields js.defaults config).map Prod.fst :=
      List.mem_map.mpr ⟨(name, config name), mem_declared.mpr ⟨hset, rfl⟩, rfl⟩
    simpa using h name hmem
  · intro h name hname
    obtain ⟨x, hx, rfl⟩ := List.mem_map.mp hname
    simpa using h x.1 (mem_declared.mp hx).1

theorem declaredConsumerFields_of_supported (h : Supported js config) :
    declaredConsumerFields js config = .ok (declaredOf js.fields js.defaults config) :=
  if_neg (not_not.mpr (unsupportedFields_eq_nil_iff.mpr h))

theorem declaredConsumerFields_of_not_supported (h : ¬ Supported js config) :
    ∃ error, declaredConsumerFields js config = .error error :=
  ⟨_, if_pos (unsupportedFields_eq_nil_iff.not.mpr h)⟩

theorem driftOf_eq_nil_iff_inStep {current : ConsumerConfig V} :
    driftOf (declaredOf js.fields js.defaults config) current = [] ↔ InStep js config current := by
  rw [driftOf_eq_nil_iff]
  constructor
  · intro h name hset
    exact h (name, config name) (mem_declared.mpr ⟨hset, rfl⟩)
  · intro h x hx
    obtain ⟨hset, hvalue⟩ := mem_declared.mp hx
    rw [h x.1 hset, hvalue]

/-- The stored configuration evolved by its drift. -/
theorem reaches_evolve (current : ConsumerConfig V) : Reaches js config (some current)
    (evolve current (driftOf (declaredOf js.fields js.defaults config) current)) := by
  refine ⟨fun name hset => ?_, fun old hold name hset => ?_⟩
  · exact evolve_driftOf_declared (fun x hx => (mem_declared.mp hx).2)
      ⟨(name, config name), mem_declared.mpr ⟨hset, rfl⟩, rfl⟩
  · obtain rfl := Option.some.inj hold
    refine evolve_driftOf_other fun x hx heq => ?_
    rw [← heq] at hset
    exact hset (mem_declared.mp hx).1

omit [DecidableEq V] in
theorem reaches_of_inStep {current : ConsumerConfig V} (h : InStep js config current) :
    Reaches js config (some current) current :=
  ⟨h, fun _ hold _ _ => congrFun (Option.some.inj hold) _⟩

/-- An update goes back under the durable it was read from: no declared field names one. -/
theorem evolve_named (hsupported : Supported js config) (current : ConsumerConfig V) :
    evolve current (driftOf (declaredOf js.fields js.defaults config) current) durableNameField =
      current durableNameField := by
  refine evolve_driftOf_other fun x hx heq => ?_
  have hmem := hsupported x.1 (mem_declared.mp hx).1
  rw [heq] at hmem
  exact absurd hmem (by decide)

/-! ## The parts of the program -/

omit [DecidableEq V] in
theorem findStream_always : Always BrokerMay (findStream subject stream) b fun r b' =>
    b' = b ∧ ∀ name, r = .ok name → OnStream b subject stream name := by
  cases stream with
  | some name => exact ⟨rfl, fun name' h => .inl (congrArg some (Except.ok.inj h))⟩
  | none =>
      refine Always.perform ⟨.error (.broker (.other "")), b, ?_⟩ fun r b' hmay => ?_
      · exact ⟨fun error h => ⟨_, (Except.error.inj h).symm⟩, rfl, rfl, fun _ h => by cases h⟩
      · obtain ⟨-, -, hb, hfound⟩ := hmay
        exact ⟨hb, fun name h => .inr ⟨rfl, hfound name h⟩⟩

omit [DecidableEq V] in
theorem storedConfig_always (name durable : String) :
    Always BrokerMay (storedConfig name durable) b fun r b' =>
      b' = b ∧ ∀ info, r = .ok info → info = b.stored name durable := by
  have hread : Always BrokerMay (jsConsumerInfo name durable) b fun r b' => b' = b ∧
      (∀ current, r = .ok current → b.stored name durable = some current) ∧
      ∀ text, r = .error (.broker (.notFound text)) → b.stored name durable = none := by
    refine Always.perform ⟨.error (.broker (.other "")), b, ?_⟩ fun r b' hmay => ?_
    · refine ⟨fun error h => ⟨_, (Except.error.inj h).symm⟩, rfl, rfl, fun _ h => ?_, fun _ h => ?_⟩
      · cases h
      · cases h
    · exact hmay.2.2
  refine Always.tryCatch (hread.bind (R := fun r b' => b' = b ∧
    (∀ info, r = .ok info → info = b.stored name durable) ∧
    ∀ text, r = .error (.broker (.notFound text)) → b.stored name durable = none) ?_ ?_) ?_ ?_
  · rintro current b' ⟨hb, hfound, -⟩
    refine ⟨hb, fun info h => ?_, fun text h => by cases h⟩
    rw [hfound current rfl]
    exact (Except.ok.inj h).symm
  · rintro error b' ⟨hb, -, hmissing⟩
    refine ⟨hb, fun info h => ?_, fun text h => hmissing text (congrArg _ (Except.error.inj h))⟩
    cases h
  · rintro info b' ⟨hb, hinfo, -⟩
    exact ⟨hb, hinfo⟩
  · rintro error b' ⟨hb, -, hmissing⟩
    split
    · rename_i text
      refine ⟨hb, fun info h => ?_⟩
      rw [hmissing text rfl]
      exact (Except.ok.inj h).symm
    · exact ⟨hb, fun info h => by cases h⟩

omit [DecidableEq V] in
theorem updateConsumer_always (name durable : String) (current : ConsumerConfig V)
    (drift : List (String × V)) :
    Always BrokerMay (updateConsumer js name durable current drift) b fun r b' =>
      b'.streamOf = b.streamOf ∧ b'.subscriptions = b.subscriptions ∧
      (r = .ok () → b'.stored = putConsumer js b.stored name (evolve current drift)) := by
  have hwrite : Always BrokerMay (jsAddConsumer name (evolve current drift)) b fun r b' =>
      b'.streamOf = b.streamOf ∧ b'.subscriptions = b.subscriptions ∧
      (r = .ok () → b'.stored = putConsumer js b.stored name (evolve current drift)) := by
    refine Always.perform ⟨.error (.broker (.other "")),
      { b with updates := b.updates ++ [(name, evolve current drift)] }, ?_⟩ fun r b' hmay => ?_
    · exact ⟨fun error h => ⟨_, (Except.error.inj h).symm⟩, rfl, rfl, rfl, .inr ⟨rfl, _, rfl⟩⟩
    · obtain ⟨-, hstream, hsubs, -, hstored⟩ := hmay
      refine ⟨hstream, hsubs, fun hr => ?_⟩
      rcases hstored with hstored | ⟨-, error, herror⟩
      · exact hstored
      · rw [hr] at herror
        cases herror
  refine hwrite.tryCatch (fun _ _ h => h) fun error b' h => ?_
  have hraise : ∀ error', Always BrokerMay (raise error' : QueueProg V C Unit) b' fun r b' =>
      b'.streamOf = b.streamOf ∧ b'.subscriptions = b.subscriptions ∧
      (r = .ok () → b'.stored = putConsumer js b.stored name (evolve current drift)) :=
    fun error' => ⟨h.1, h.2.1, fun hr => by cases hr⟩
  split
  · split
    · exact hraise _
    · exact hraise _
  · exact hraise _

/-- What `ensure_consumer_config` leaves of the broker. -/
structure Ensured (b : Broker js C) (name durable : String) (config : ConsumerConfig V)
    (r : Except QueueError Unit) (b' : Broker js C) : Prop where
  streamOf : b'.streamOf = b.streamOf
  subscriptions : b'.subscriptions = b.subscriptions
  supported : r = .ok () → Supported js config
  refused : ¬ Supported js config → b' = b
  untouched : (∀ old, b.stored name durable = some old → InStep js config old) → b' = b
  written : r = .ok () → ∀ old, b.stored name durable = some old →
    ∃ new, b'.stored name durable = some new ∧ Reaches js config (some old) new
  frame : r = .ok () → ∀ name' durable', (name', durable') ≠ (name, durable) →
    b'.stored name' durable' = b.stored name' durable'

omit [DecidableEq V] in
theorem ensured_self {name durable : String} {r : Except QueueError Unit}
    (hsupported : r = .ok () → Supported js config)
    (hwritten : r = .ok () → ∀ old, b.stored name durable = some old → InStep js config old) :
    Ensured b name durable config r b where
  streamOf := rfl
  subscriptions := rfl
  supported := hsupported
  refused _ := rfl
  untouched _ := rfl
  written hr old hold := ⟨old, hold, reaches_of_inStep (hwritten hr old hold)⟩
  frame _ _ _ _ := rfl

theorem ensureConsumerConfig_always (name durable : String) :
    Always BrokerMay (ensureConsumerConfig js name durable config) b
      (Ensured b name durable config) := by
  by_cases hsupported : Supported js config
  · rw [ensureConsumerConfig, declaredConsumerFields_of_supported hsupported, ret_ok_bind]
    refine (storedConfig_always name durable).bind ?_ ?_
    · rintro info b' ⟨rfl, hinfo⟩
      obtain rfl := hinfo info rfl
      cases hstored : b'.stored name durable with
      | none =>
          refine ensured_self (fun _ => hsupported) fun _ old hold => ?_
          rw [hstored] at hold
          cases hold
      | some current =>
          have hcurrent : ∀ old, b'.stored name durable = some old → old = current := by
            intro old hold
            rw [hstored] at hold
            exact (Option.some.inj hold).symm
          show Always BrokerMay (if _ = [] then _ else _) b' _
          split
          · rename_i hdrift
            refine ensured_self (fun _ => hsupported) fun _ old hold => ?_
            rw [hcurrent old hold]
            exact driftOf_eq_nil_iff_inStep.mp hdrift
          · rename_i hdrift
            -- the update names the durable it was read from
            have hnamed := b'.named name durable current hstored
            rw [← evolve_named hsupported current] at hnamed
            refine (updateConsumer_always name durable current _).mono fun r b'' hw => ?_
            obtain ⟨hstream, hsubs, hput⟩ := hw
            refine ⟨hstream, hsubs, fun _ => hsupported, fun h => absurd hsupported h, fun h => ?_,
              fun hr old hold => ?_, fun hr name' durable' hne => ?_⟩
            · exact absurd (driftOf_eq_nil_iff_inStep.mpr (h current hstored)) hdrift
            · rw [hput hr, hcurrent old hold]
              exact ⟨_, if_pos ⟨rfl, hnamed.symm⟩, reaches_evolve current⟩
            · rw [hput hr, putConsumer, hnamed, if_neg]
              rintro ⟨rfl, rfl⟩
              exact hne rfl
    · rintro error b' ⟨rfl, -⟩
      exact ensured_self (fun h => by cases h) fun h => by cases h
  · obtain ⟨error, herror⟩ := declaredConsumerFields_of_not_supported hsupported
    rw [ensureConsumerConfig, herror, ret_error_bind]
    exact ensured_self (fun h => by cases h) fun h => by cases h

/-- What `js.subscribe` leaves of the broker. -/
structure Subscribed (b : Broker js C) (request : PushSubscription C) (config : ConsumerConfig V)
    (r : Except QueueError (PushSubscription C)) (b' : Broker js C) : Prop where
  streamOf : b'.streamOf = b.streamOf
  updates : b'.updates = b.updates
  failed : ∀ error, r = .error error → b'.subscriptions = b.subscriptions
  bound : ∀ sub, r = .ok sub → sub = request ∧ b'.subscriptions = b.subscriptions ++ [request]
  kept : ∀ old, b.stored request.stream request.durable = some old → b'.stored = b.stored
  created : ∀ sub, r = .ok sub → b.stored request.stream request.durable = none →
    b'.stored = putConsumer js b.stored request.stream
      (js.created request.subject request.durable config)

omit [DecidableEq V] in
theorem jsSubscribe_always (request : PushSubscription C) :
    Always BrokerMay (jsSubscribe request config) b (Subscribed b request config) := by
  refine Always.perform ⟨.error (.broker (.other "")), b, ?_⟩ fun r b' hmay => ?_
  · exact ⟨fun error h => ⟨_, (Except.error.inj h).symm⟩, rfl, rfl, .inr ⟨rfl, _, rfl⟩,
      .inl ⟨rfl, .inr ⟨_, rfl⟩⟩⟩
  · obtain ⟨-, hstream, hupdates, hsubs, hstored⟩ := hmay
    refine ⟨hstream, hupdates, fun error hr => ?_, fun sub hr => ?_, fun old hold => ?_, fun sub hr hnone => ?_⟩
    · rcases hsubs with ⟨-, hok⟩ | ⟨hsame, -⟩
      · rw [hr] at hok
        cases hok
      · exact hsame
    · rcases hsubs with ⟨hadded, hok⟩ | ⟨-, error, herror⟩
      · rw [hr] at hok
        exact ⟨Except.ok.inj hok, hadded⟩
      · rw [hr] at herror
        cases herror
    · rcases hstored with ⟨hsame, -⟩ | ⟨hnone, -⟩
      · exact hsame
      · rw [hold] at hnone
        cases hnone
    · rcases hstored with ⟨-, hsome | ⟨error, herror⟩⟩ | ⟨-, hcreated⟩
      · rw [hnone] at hsome
        cases hsome
      · rw [hr] at herror
        cases herror
      · exact hcreated

/-! ## One call -/

/-- What one call leaves of the broker. -/
structure Settled (b : Broker js C) (subject durable : String) (config : ConsumerConfig V)
    (stream : Option String) (r : Except QueueError (PushSubscription C)) (b' : Broker js C) :
    Prop where
  streamOf : b'.streamOf = b.streamOf
  failed : ∀ error, r = .error error → b'.subscriptions = b.subscriptions
  bound : ∀ sub, r = .ok sub → b'.subscriptions = b.subscriptions ++ [sub] ∧
    sub.durable = durable ∧ OnStream b subject stream sub.stream ∧ ∃ new,
      b'.stored sub.stream durable = some new ∧
        Reaches js config (b.stored sub.stream durable) new ∧
      ∀ name' durable', (name', durable') ≠ (sub.stream, durable) →
        b'.stored name' durable' = b.stored name' durable'
  refused : ¬ Supported js config → (∃ error, r = .error error) ∧ b' = b
  untouched : (∀ name, OnStream b subject stream name → ∃ old,
    b.stored name durable = some old ∧ InStep js config old) →
    b'.stored = b.stored ∧ b'.updates = b.updates

theorem subscribeDurable_always : Always BrokerMay
    (subscribeDurable js subject durable cb config stream) b
    (Settled b subject durable config stream) := by
  rw [subscribeDurable]
  refine findStream_always.bind ?_ ?_
  · rintro name b' ⟨rfl, hname⟩
    have hon := hname name rfl
    refine (ensureConsumerConfig_always name durable).bind ?_ ?_
    · intro u b₁ hensured
      have hsupported := hensured.supported rfl
      refine (jsSubscribe_always _).mono fun r b₂ hsub => ?_
      refine ⟨hsub.streamOf.trans hensured.streamOf, fun error hr => ?_, fun sub hr => ?_,
        fun h => absurd hsupported h, fun h => ?_⟩
      · rw [hsub.failed error hr, hensured.subscriptions]
      · obtain ⟨rfl, hadded⟩ := hsub.bound sub hr
        rw [hensured.subscriptions] at hadded
        refine ⟨hadded, rfl, hon, ?_⟩
        cases hstored : b'.stored name durable with
        | some old =>
            -- the durable was there, and `js.subscribe` leaves it as it is
            obtain ⟨new, hnew, hreaches⟩ := hensured.written rfl old hstored
            rw [hsub.kept new hnew]
            exact ⟨new, hnew, hreaches, hensured.frame rfl⟩
        | none =>
            have hsame : b₁ = b' := hensured.untouched fun old hold => by
              rw [hstored] at hold
              cases hold
            rw [hsame] at hsub
            have hnamed := js.created_named subject durable config
            rw [hsub.created _ hr hstored]
            refine ⟨_, if_pos ⟨rfl, hnamed.symm⟩, ⟨fun field hset => ?_, fun _ hold => ?_⟩,
              fun name' durable' hne => ?_⟩
            · exact js.created_keeps subject durable config field (hsupported field hset) hset.2
            · cases hold
            · refine if_neg ?_
              rw [hnamed]
              rintro ⟨rfl, rfl⟩
              exact hne rfl
      · obtain ⟨old, hold, hstep⟩ := h name hon
        have hsame : b₁ = b' := by
          refine hensured.untouched fun old' hold' => ?_
          rw [hold] at hold'
          exact Option.some.inj hold' ▸ hstep
        rw [hsame] at hsub
        exact ⟨hsub.kept old hold, hsub.updates⟩
    · intro error b₁ hensured
      refine ⟨hensured.streamOf, fun _ _ => hensured.subscriptions, fun sub hr => (by cases hr), fun h => ?_, fun h => ?_⟩
      · exact ⟨⟨error, rfl⟩, hensured.refused h⟩
      · obtain ⟨old, hold, hstep⟩ := h name hon
        have hsame : b₁ = b' := by
          refine hensured.untouched fun old' hold' => ?_
          rw [hold] at hold'
          exact Option.some.inj hold' ▸ hstep
        rw [hsame]
        exact ⟨rfl, rfl⟩
  · rintro error b' ⟨rfl, -⟩
    exact ⟨rfl, fun _ _ => rfl, fun sub hr => (by cases hr), fun _ => ⟨⟨error, rfl⟩, rfl⟩,
      fun _ => ⟨rfl, rfl⟩⟩

omit [DecidableEq V] in
theorem OnStream.unique {name name' : String} (h : OnStream b subject stream name)
    (h' : OnStream b subject stream name') : name = name' := by
  rcases h with h | ⟨hnone, h⟩ <;> rcases h' with h' | ⟨hnone', h'⟩
  · exact Option.some.inj (h.symm.trans h')
  · rw [hnone'] at h
    cases h
  · rw [hnone] at h'
    cases h'
  · exact Option.some.inj (h.symm.trans h')

/-- However the operations of `subscribe_durable` end: it raises and there is no
subscription, or it is bound to a durable with every declared field and the other
fields unchanged. It writes nothing where a field is refused, and nothing where the
durable agrees, so a second call changes nothing. -/
theorem settings_reach (js : JetStream V) (b : Broker js C) (subject durable : String) (cb : C)
    (config : ConsumerConfig V) (stream : Option String) :
    Always BrokerMay (subscribeDurable js subject durable cb config stream) b fun r b' =>
      (∀ error, r = .error error → b'.subscriptions = b.subscriptions) ∧
      (∀ sub, r = .ok sub → b'.subscriptions = b.subscriptions ++ [sub] ∧ sub.durable = durable ∧
        OnStream b subject stream sub.stream ∧ ∃ new, b'.stored sub.stream durable = some new ∧
          (∀ name, Sets js config name → new name = config name) ∧
          (∀ old, b.stored sub.stream durable = some old →
            ∀ name, ¬ Sets js config name → new name = old name) ∧
          ∀ name' durable', (name', durable') ≠ (sub.stream, durable) →
            b'.stored name' durable' = b.stored name' durable') ∧
      ((∃ name, Sets js config name ∧ name ∉ reconciledConsumerFields) →
        (∃ error, r = .error error) ∧ b' = b) ∧
      ((∀ name, OnStream b subject stream name → ∃ old, b.stored name durable = some old ∧
        InStep js config old) → b'.stored = b.stored ∧ b'.updates = b.updates) ∧
      ((∃ sub, r = .ok sub) → Always BrokerMay
        (subscribeDurable js subject durable cb config stream) b' fun _ b'' =>
          b''.stored = b'.stored ∧ b''.updates = b'.updates) := by
  refine subscribeDurable_always.mono fun r b' hsettled => ?_
  refine ⟨hsettled.failed, fun sub hr => ?_, fun ⟨name, hset, hname⟩ => ?_, hsettled.untouched, ?_⟩
  · obtain ⟨hadded, hdurable, hon, new, hnew, hreaches, hframe⟩ := hsettled.bound sub hr
    exact ⟨hadded, hdurable, hon, new, hnew, hreaches.inStep, hreaches.kept, hframe⟩
  · exact hsettled.refused fun hsupported => hname (hsupported name hset)
  · -- after the first call the durable agrees
    rintro ⟨sub, hr⟩
    obtain ⟨-, -, hon, new, hnew, hreaches, -⟩ := hsettled.bound sub hr
    refine subscribeDurable_always.mono fun r' b'' hagain => hagain.untouched fun name hname => ?_
    have hname' : OnStream b subject stream name := by
      rwa [OnStream, hsettled.streamOf] at hname
    rw [hname'.unique hon]
    exact ⟨new, hnew, hreaches.inStep⟩

/-! ## A durable of an earlier build -/

/-- A client whose durables are created as they are declared. -/
def plainJs : JetStream String where
  fields := [durableNameField, "deliver_subject", "ack_wait", "max_deliver", "max_ack_pending",
    "backoff"]
  defaults _ := "None"
  asName := id
  reprOf := id
  created _ durable config name := if name = durableNameField then durable else config name
  created_named _ _ _ := if_pos rfl
  created_keeps _ _ _ name hname _ := by
    refine if_neg ?_
    rintro rfl
    exact absurd hname (by decide)

/-- The configuration stored by the earlier build. -/
def storedBefore : ConsumerConfig String := fun name =>
  if name = durableNameField then "worker-test"
  else if name = "deliver_subject" then "_INBOX.1"
  else if name = "ack_wait" then "120"
  else "None"

def seeded : Broker plainJs Unit where
  streamOf _ := some "TEST"
  stored stream durable := if stream = "TEST" ∧ durable = "worker-test" then some storedBefore else none
  named stream durable config h := by
    rw [Option.ite_none_right_eq_some] at h
    obtain ⟨⟨-, rfl⟩, h⟩ := h
    rw [← Option.some.inj h]
    rfl
  subscriptions := []
  updates := []

/-- A longer `ack_wait`, and nothing else. -/
def longerWait : ConsumerConfig String := fun name => if name = "ack_wait" then "600" else "None"

theorem longerWait_reaches : Always BrokerMay
    (subscribeDurable plainJs "optimce.test.run" "worker-test" () longerWait none) seeded fun r b' =>
      ∀ sub, r = .ok sub → ∃ new, b'.stored "TEST" "worker-test" = some new ∧
        new "ack_wait" = "600" ∧ new "deliver_subject" = "_INBOX.1" := by
  refine (settings_reach plainJs seeded "optimce.test.run" "worker-test" () longerWait none).mono
    fun r b' h sub hr => ?_
  obtain ⟨-, hdurable, hon, new, hnew, hset, hkept, -⟩ := h.2.1 sub hr
  have hstream : sub.stream = "TEST" := hon.unique (.inr ⟨rfl, rfl⟩)
  rw [hstream] at hnew hkept
  refine ⟨new, hnew, hset "ack_wait" ⟨by decide, by decide⟩, ?_⟩
  exact hkept storedBefore rfl "deliver_subject" fun hsets => hsets.2 (by decide)

end SimulationKey.Theorems.ConsumerSettings
