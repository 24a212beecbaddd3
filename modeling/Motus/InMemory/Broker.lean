import Motus.Transport.Seam

set_option autoImplicit false

/-!
# The process-wide broker (`src/transport/InMemoryTransport.cpp`, class `Broker`)

`_topics` and `_groups` are `std::map`s, here `Std.TreeMap`s, so that iterating a
group visits its destinations in name order as the source does.  A
`std::deque<Held>` is the list of its messages, front first.  Every method runs
with `_mutex` held and is one `Exec` computation: what it wrote before a throw
stays written.

Two things are auxiliary, written by the operations and read by none of them: the
field `Held.copy`, which stays with a message when dead-lettering renumbers it,
and `Broker.journal`, the list of what happened to the messages.
-/

namespace Motus.InMemory

open Motus.Foundation Motus.Transport

/-- One message sitting in, or taken from, a topic. -/
structure Held where
  sequence : Nat
  body : Bytes
  redelivered : Bool := false
  /-- Auxiliary: the sequence number the copy was first offered under. -/
  copy : Nat
  deriving DecidableEq, Repr

/-- Auxiliary: how a copy left the broker for good. -/
inductive Fate where
  | acked
  | purged
  /-- rejected from this topic, which does not dead-letter -/
  | rejected (topic : Topic)
  /-- evicted from the head of this topic, which does not dead-letter -/
  | evicted (topic : Topic)
  /-- refused by this topic, at which so many messages were waiting -/
  | refused (topic : Topic) (depth : Nat)
  deriving DecidableEq, Repr

/-- Auxiliary: one entry of the journal. -/
inductive Entry where
  /-- `publish` numbered a copy for a topic -/
  | offered (topic : Topic) (message : Held)
  /-- a message was pushed to the back of a topic -/
  | stored (topic : Topic) (message : Held)
  /-- a message, already renumbered, goes to the forensic destination of `source` -/
  | deadLettered (source : Topic) (message : Held)
  /-- a message left the broker for good -/
  | closed (message : Held) (fate : Fate)
  /-- a transport handed a message to its handler -/
  | delivered (transport : Nat) (topic : Topic) (message : Held)
  /-- a transport carried out a disposition, or returned the delivery at close -/
  | resolved (transport : Nat) (sequence : Nat)
  deriving DecidableEq, Repr

/-- The entry was written by a transport. -/
def Entry.ofTransport : Entry → Bool
  | .delivered .. | .resolved .. => true
  | _ => false

/-- `TopicState`: an entry of `_topics`. -/
structure TopicState where
  messages : List Held := []
  options : TopicOptions := {}
  /-- The key this destination is bound with. -/
  binding : String := ""
  deriving DecidableEq, Repr

/-- The fields of the class, and the journal. -/
structure Broker where
  topics : Std.TreeMap Topic TopicState := {}
  groups : Std.TreeMap String Routing := {}
  sequence : Nat := 0
  journal : List Entry := []

namespace TopicState

/-- The test of `enqueueLocked` for a topic that has reached its limit. -/
def full (state : TopicState) : Bool :=
  decide (state.options.maxLength > 0) &&
    decide (state.messages.length ≥ state.options.maxLength)

end TopicState

namespace Broker

/-! ## Single writes -/

/-- `_topics.find(topic)`. -/
def find (b : Broker) (topic : Topic) : Option TopicState := b.topics[topic]?

/-- Write one entry of `_topics`. -/
def write (b : Broker) (topic : Topic) (state : TopicState) : Broker :=
  { b with topics := b.topics.insert topic state }

/-- `_topics[topic]`, which creates a default entry when there is none. -/
def touch (b : Broker) (topic : Topic) : Broker :=
  { b with topics := b.topics.insertIfNew topic {} }

/-- Auxiliary: an entry at the end of the journal. -/
def log (b : Broker) (entry : Entry) : Broker := { b with journal := b.journal ++ [entry] }

/-- What the transports did: deliveries and resolutions, in order. -/
def history (b : Broker) : List Entry := b.journal.filter Entry.ofTransport

/-- A message leaves the broker for good. -/
def close (b : Broker) (message : Held) (fate : Fate) : Broker := b.log (.closed message fate)

/-- `messages.push_back`. -/
def pushBack (b : Broker) (topic : Topic) (message : Held) : Broker :=
  let state := (b.find topic).getD {}
  (b.write topic { state with messages := state.messages ++ [message] }).log
    (.stored topic message)

/-- `messages.push_front`. -/
def pushFront (b : Broker) (topic : Topic) (message : Held) : Broker :=
  let state := (b.find topic).getD {}
  b.write topic { state with messages := message :: state.messages }

/-- The copy that `Held{++_sequence, body, false}` makes. -/
def fresh (b : Broker) (body : Bytes) : Held :=
  { sequence := b.sequence + 1, body := body, redelivered := false, copy := b.sequence + 1 }

/-- Number a copy for a topic. -/
def offered (b : Broker) (topic : Topic) (body : Bytes) : Broker :=
  { b with sequence := b.sequence + 1 }.log (.offered topic (b.fresh body))

/-- A message as `deadLetterLocked` renumbers it. -/
def renumbered (b : Broker) (message : Held) : Held :=
  { message with sequence := b.sequence + 1, redelivered := false }

/-- Renumber a message that goes to the forensic destination of `source`. -/
def deadLettered (b : Broker) (source : Topic) (message : Held) : Broker :=
  { b with sequence := b.sequence + 1 }.log (.deadLettered source (b.renumbered message))

/-- `messages.clear`. -/
def purged (b : Broker) (topic : Topic) (state : TopicState) : Broker :=
  { b.write topic { state with messages := [] } with
    journal := b.journal ++ state.messages.map (Entry.closed · .purged) }

/-! ## Declarations -/

/-- The properties every declaration of a topic must agree on. -/
def agrees (existing options : TopicOptions) : Bool :=
  existing.durable == options.durable && existing.shared == options.shared &&
    existing.deleteWhenUnused == options.deleteWhenUnused &&
    existing.deadLetter == options.deadLetter && existing.maxLength == options.maxLength &&
    existing.overflow == options.overflow

/-- The first half of `ensureTopic`: declare the group, or check its routing kind. -/
def ensureGroup (options : TopicOptions) : Exec Exn Broker Unit := do
  let b ← get
  if options.group = "" then pure ()
  else
    match b.groups[options.group]? with
    | none => set { b with groups := b.groups.insert options.group options.routing }
    | some routing =>
        if routing = options.routing then pure ()
        else throw (.runtimeError ("cannot declare group '" ++ options.group ++
          "': it already exists with a different routing kind (every declarer must " ++
          "agree on Exact/Pattern/Broadcast)"))

/-- Declare a topic, or verify that an existing declaration agrees. -/
def ensureTopic (topic : Topic) (options : TopicOptions) : Exec Exn Broker Unit := do
  ensureGroup options
  let b ← get
  match b.find topic with
  | none =>
      set (b.write topic { options := options,
                           binding := if options.route = "" then topic else options.route })
  | some existing =>
      if agrees existing.options options then pure ()
      else throw (.runtimeError ("cannot declare topic '" ++ topic ++
        "': it already exists with different properties (a PRECONDITION_FAILED here means an " ++
        "existing destination was declared with different properties -- durable/shared/" ++
        "deleteWhenUnused/deadLetter/maxLength/overflow must match everywhere)"))

/-! ## Overflow and dead-lettering

`enqueueLocked` and `deadLetterLocked` call each other along the chain of forensic
destinations.  `deadLetterVia` is the body of the second over the first, and the
first recurses on a fuel, of which one unit per topic is enough. -/

/-- Body of `deadLetterLocked`, over the `enqueueLocked` it calls. -/
def deadLetterVia (enqueue : Topic → Held → Exec Exn Broker Bool) (source : Topic)
    (message : Held) : Exec Exn Broker Unit := do
  let b ← get
  match b.find source with
  | none => set (b.close message (.rejected source))
  | some state =>
      if state.options.deadLetter then
        match b.find (deadLetterTopic source) with
        | none => throw (.logicError ("dead-letter destination '" ++ deadLetterTopic source ++
            "' was not provisioned with source '" ++ source ++ "'"))
        | some _ => do
            set (b.deadLettered source message)
            let _ ← enqueue (deadLetterTopic source) (b.renumbered message)
            pure ()
      else set (b.close message (.rejected source))

/-- The `DropHead` case of `enqueueLocked`: discard or dead-letter the oldest. -/
def dropHead (deadLetter : Topic → Held → Exec Exn Broker Unit) (topic : Topic)
    (state : TopicState) : Exec Exn Broker Unit :=
  match state.messages with
  | [] => pure ()   -- a full topic is not empty
  | evicted :: rest => do
      modify (·.write topic { state with messages := rest })
      if state.options.deadLetter then deadLetter topic evicted
      else modify (·.close evicted (.evicted topic))

/-- Apply `maxLength` and `overflow`; false means the new publish was refused. -/
def enqueueLocked : Nat → Topic → Held → Exec Exn Broker Bool
  | 0, _, _ => throw .diverged
  | fuel + 1, topic, message => do
      let b ← get
      let state := (b.find topic).getD {}
      if state.full then
        match state.options.overflow with
        | .dropHead => do
            dropHead (deadLetterVia (enqueueLocked fuel)) topic state
            modify (·.pushBack topic message)
            pure true
        | .rejectPublish => do
            set (b.close message (.refused topic state.messages.length))
            pure false
        | .rejectPublishDlx => do
            if state.options.deadLetter then
              deadLetterVia (enqueueLocked fuel) topic message
            else set (b.close message (.refused topic state.messages.length))
            pure false
      else do
        set (b.pushBack topic message)
        pure true

/-- Core of `deadLetter`, for a caller that holds the lock. -/
def deadLetterLocked (source : Topic) (message : Held) : Exec Exn Broker Unit := do
  let b ← get
  deadLetterVia (enqueueLocked b.topics.size) source message

/-! ## Publishing and consuming -/

/-- `enqueueLocked(topic, state, Held{++_sequence, body, false})`. -/
def offer (topic : Topic) (body : Bytes) : Exec Exn Broker Bool := do
  let b ← get
  set (b.offered topic body)
  enqueueLocked b.topics.size topic (b.fresh body)

/-- How a group with this routing kind compares a binding with a key. -/
def bindingMatches (routing : Routing) (binding key : String) : Bool :=
  match routing with
  | .broadcast => true
  | .exact => binding == key
  | .pattern => routeMatches binding key

/-- The loop of `publish` over the destinations of a group. -/
def offerAll (group : String) (routing : Routing) (key : String) (body : Bytes) :
    List Topic → Bool → Exec Exn Broker Bool
  | [], accepted => pure accepted
  | name :: rest, accepted => do
      let b ← get
      let state := (b.find name).getD {}
      if state.options.group = group ∧ bindingMatches routing state.binding key then do
        let stored ← offer name body
        offerAll group routing key body rest (stored && accepted)
      else offerAll group routing key body rest accepted

/-- Publish, routing through the topic's group if it has one. -/
def publish (topic : Topic) (body : Bytes) (routeOverride : String) :
    Exec Exn Broker Bool := do
  let b ← get
  let origin := (b.find topic).getD {}
  if origin.options.group = "" then do
    set (b.touch topic)
    offer topic body
  else do
    let routing := (b.groups[origin.options.group]?).getD .exact
    set { b with groups := b.groups.insertIfNew origin.options.group .exact }
    let key := if routeOverride = "" then origin.binding else routeOverride
    offerAll origin.options.group routing key body b.topics.keys true

/-- Take the next message, if any. -/
def take (topic : Topic) : Exec Exn Broker (Option Held) := do
  let b ← get
  match b.find topic with
  | none => pure none
  | some state =>
      match state.messages with
      | [] => pure none
      | message :: rest => do
          set (b.write topic { state with messages := rest })
          pure (some message)

/-- Put a message back for another attempt, flagged as redelivered. -/
def requeue (topic : Topic) (message : Held) : Exec Exn Broker Unit :=
  modify (·.pushFront topic { message with redelivered := true })

/-- Preserve a rejected message in the source topic's forensic destination. -/
def deadLetter (source : Topic) (message : Held) : Exec Exn Broker Unit :=
  deadLetterLocked source message

/-- `depth`: the length is returned as a `std::uint32_t`. -/
def depth (topic : Topic) : Exec Exn Broker Nat := do
  let b ← get
  match b.find topic with
  | none => pure 0
  | some state => pure (state.messages.length % 2 ^ 32)

/-- Discard everything waiting at a topic; returns how many went. -/
def purge (topic : Topic) : Exec Exn Broker Nat := do
  let b ← get
  match b.find topic with
  | none => pure 0
  | some state => do
      set (b.purged topic state)
      pure (state.messages.length % 2 ^ 32)

end Broker

end Motus.InMemory
