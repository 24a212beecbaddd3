import Motus.InMemory.Broker

set_option autoImplicit false

/-!
# One in-memory transport (`src/transport/InMemoryTransport.cpp`)

A method of `InMemoryTransport` is a computation over the broker and the object's
own fields.  `pump` calls user code while no lock is held, so it is cut there:
`pumpTurn` is one turn of its loop up to the call of the handler, and
`handlerReturns` is the rest, from the moment the handler leaves.  `ensureTopic`
takes the broker's lock twice and is cut between the two.  The fields `handling`
and `declaring` are the local variables that live across those cuts.
-/

namespace Motus.InMemory

open Motus.Foundation Motus.Transport

/-- `InMemoryTransport`: its fields, and where its owner stands in a call that has not
returned. -/
structure InMemoryTransport where
  connected : Bool := false
  subscribed : Bool := false
  topic : Topic := ""
  /-- Whether `_handler` is callable; what it does is the environment's choice. -/
  handler : Bool := false
  /-- Deliveries taken and not yet resolved, by sequence number. -/
  outstanding : Std.TreeMap Nat Held := {}
  stats : Stats := {}
  /-- The local `message` of a `pump` whose handler is running. -/
  handling : Option Held := none
  /-- The arguments of an `ensureTopic` between its two broker calls. -/
  declaring : Option (Topic × TopicOptions) := none
  /-- The destructor has run. -/
  destroyed : Bool := false

/-- The broker and one transport, with the transport's number for the journal. -/
structure Site where
  broker : Broker
  self : InMemoryTransport
  number : Nat

/-- A method of `InMemoryTransport`. -/
abbrev Method (α : Type) : Type := Exec Exn Site α

/-- How one turn of the loop in `pump` ends. -/
inductive PumpTurn where
  /-- `pump` returns this value -/
  | done (result : Bool)
  /-- nothing to deliver: sleep five milliseconds and go round again -/
  | slept
  /-- the handler is called with this delivery -/
  | calling (delivery : Delivery)
  deriving DecidableEq, Repr

namespace InMemoryTransport

/-- A call on the broker. -/
def onBroker {α : Type} (x : Exec Exn Broker α) : Method α :=
  Exec.zoom Site.broker (fun b s => { s with broker := b }) x

/-- A write to the fields of the transport. -/
def setSelf (self : InMemoryTransport) : Method Unit := modify fun s => { s with self := self }

/-- Auxiliary: an entry in the journal of the broker. -/
def record (entry : Entry) : Method Unit := onBroker (modify (·.log entry))

/-- `connect` cannot fail: the broker is part of the process. -/
def connect : Method Unit := do
  let s ← get
  setSelf { s.self with connected := true }

/-- `ready`. -/
def ready : Method Bool := do
  let s ← get
  pure s.self.connected

/-- The messages of `_outstanding`, lowest sequence number first. -/
def unresolved (self : InMemoryTransport) : List Held := self.outstanding.toList.map Prod.snd

/-- Put every delivery of the list back, the last of them first. -/
def requeueAll (topic : Topic) : List Held → Method Unit
  | [] => pure ()
  | message :: rest => do
      requeueAll topic rest
      onBroker (Broker.requeue topic message)
      record (.resolved (← get).number message.sequence)

/-- Return anything taken but not yet resolved to its topic.  The map is walked
from its highest sequence number down. -/
def returnOutstanding : Method Unit := do
  let s ← get
  if s.self.outstanding.isEmpty then pure ()
  else do
    requeueAll s.self.topic s.self.unresolved
    let s ← get
    setSelf { s.self with outstanding := {} }

/-- `close`: whatever is outstanding goes back to its topic before the flags are cleared. -/
def close : Method Unit := do
  returnOutstanding
  let s ← get
  setSelf { s.self with connected := false, subscribed := false, handler := false, topic := "" }

/-- The destructor swallows whatever `returnOutstanding` throws. -/
def destroy : Method Unit := do
  tryCatch returnOutstanding fun _ => pure ()
  let s ← get
  setSelf { s.self with destroyed := true, connected := false, subscribed := false,
                        handler := false }

/-- `ensureTopic` up to and including the declaration of the forensic destination. -/
def ensureTopicForensic (topic : Topic) (options : TopicOptions) : Method Unit := do
  let s ← get
  if s.self.connected = false then
    throw (.logicError "ensureTopic() called before connect()")
  else if options.deadLetter then
    onBroker (Broker.ensureTopic (deadLetterTopic topic) (forensicTopicOptions topic))
  else pure ()

/-- The rest of `ensureTopic`: the declaration of the topic itself. -/
def ensureTopicSource (topic : Topic) (options : TopicOptions) : Method Unit :=
  onBroker (Broker.ensureTopic topic options)

/-- `ensureTopic`: two declarations, between which other threads can come. -/
def ensureTopic (topic : Topic) (options : TopicOptions) : Method Unit := do
  ensureTopicForensic topic options
  ensureTopicSource topic options

/-- `topicDepth`. -/
def topicDepth (topic : Topic) : Method Nat := do
  let s ← get
  if s.self.connected = false then throw (.logicError "topicDepth() called before connect()")
  else onBroker (Broker.depth topic)

/-- `purgeTopic`. -/
def purgeTopic (topic : Topic) : Method Nat := do
  let s ← get
  if s.self.connected = false then throw (.logicError "purgeTopic() called before connect()")
  else onBroker (Broker.purge topic)

/-- `send`: counted whatever `publish` returns. -/
def send (topic : Topic) (payload : Bytes) (options : SendOptions) : Method Bool := do
  let s ← get
  if s.self.connected = false then throw (.logicError "send() called before connect()")
  else if options.durable then
    throw (.logicError ("backend 'inmemory' cannot deliver durable messages " ++
      "(Capabilities::durableDelivery is false); check the capability before requesting it"))
  else do
    let accepted ← onBroker (Broker.publish topic payload options.route)
    let s ← get
    let stats := s.self.stats
    setSelf { s.self with stats := { stats with
      sent := stats.sent + 1, bytesSent := stats.bytesSent + payload.length } }
    pure accepted

/-- `subscribe`: one topic for each transport, which need not exist. -/
def subscribe (topic : Topic) (callable : Bool) : Method Unit := do
  let s ← get
  if s.self.connected = false then throw (.logicError "subscribe() called before connect()")
  else if callable = false then
    throw (.invalidArgument "subscribe() requires a callable handler")
  else if s.self.subscribed then
    throw (.logicError ("subscribe() called twice on one transport; use one transport per " ++
      "topic instead of overwriting the active subscription to '" ++ s.self.topic ++ "'"))
  else setSelf { s.self with topic := topic, handler := true, subscribed := true }

/-- One turn of the loop in `pump`, up to the call of the handler. -/
def pumpTurn : Method PumpTurn := do
  let s ← get
  if s.self.connected = false then pure (.done false)
  else if s.self.handler = false then pure (.done true)
  else if s.self.outstanding.isEmpty = false then pure .slept
  else do
    let taken ← onBroker (Broker.take s.self.topic)
    match taken with
    | none => pure .slept
    | some message => do
        let stats := s.self.stats
        setSelf { s.self with
          stats := { stats with
            received := stats.received + 1
            bytesReceived := stats.bytesReceived + message.body.length }
          outstanding := s.self.outstanding.insertIfNew message.sequence message
          handling := some message }
        record (.delivered s.number s.self.topic message)
        pure (.calling ⟨message.body, message.redelivered, message.sequence⟩)

/-- The switch shared by `pump` and `settle`: carry out a final disposition. -/
def perform (message : Held) (disposition : Disposition) : Method Unit := do
  let s ← get
  match disposition with
  | .ack => do
      onBroker (modify (·.close message .acked))
      setSelf { s.self with stats.acksPerformed := s.self.stats.acksPerformed + 1 }
  | .requeue => do
      onBroker (Broker.requeue s.self.topic message)
      setSelf { s.self with stats.requeuesPerformed := s.self.stats.requeuesPerformed + 1 }
  | .reject => do
      onBroker (Broker.deadLetter s.self.topic message)
      setSelf { s.self with stats.rejectsPerformed := s.self.stats.rejectsPerformed + 1 }
  | .deferred => pure ()   -- unreachable: both callers handle it before

/-- The rest of `pump`, from the moment the handler leaves. -/
def handlerReturns (message : Held) (outcome : HandlerOutcome) : Method Bool := do
  let s ← get
  match outcome with
  | .threw what => do
      -- the delivery stays outstanding: a throw resolves nothing
      setSelf { s.self with handling := none, stats.abandoned := s.self.stats.abandoned + 1 }
      throw (.handler what)
  | .returned .deferred => do
      setSelf { s.self with handling := none }
      pure true
  | .returned disposition => do
      setSelf { s.self with handling := none
                            outstanding := s.self.outstanding.erase message.sequence }
      record (.resolved s.number message.sequence)
      perform message disposition
      pure true

/-- `settle`: any outstanding tag will do, also one whose handler threw. -/
def settle (tag : Nat) (disposition : Disposition) : Method Unit := do
  let s ← get
  if s.self.connected = false then throw (.logicError "settle() called before connect()")
  else if disposition = .deferred then
    throw (.invalidArgument ("settle() cannot be called with Disposition::Deferred; a delivery " ++
      "already deferred must be settled with Ack, Reject or Requeue"))
  else
    match s.self.outstanding[tag]? with
    | none => throw (.logicError ("settle() called for tag " ++ toString tag ++ ", which is " ++
        "not an outstanding deferred delivery on this transport (already settled, or never " ++
        "deferred)"))
    | some message => do
        setSelf { s.self with outstanding := s.self.outstanding.erase tag }
        record (.resolved s.number tag)
        perform message disposition

end InMemoryTransport

end Motus.InMemory
