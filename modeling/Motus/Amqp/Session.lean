import Motus.Amqp.Connection
import Motus.Amqp.Memory

set_option autoImplicit false

/-!
# A channel and what the transport keeps beside its connection

`AmqpCppTransport` owns a connection and one channel of it.  A request on the
channel is answered in order, or the broker closes the channel and every request
that waits fails.  `Session` is every field of the transport but `_connection`;
`react` is what it does when the library calls back about the channel.

Deliveries are numbered from 1 on each channel, so that a tag means something only
together with the channel: the auxiliary field `generation` counts the channels a
transport has opened.
-/

namespace Motus.Amqp

open Motus.Foundation Motus.Transport

/-! ## Requests -/

/-- `AMQP::ExchangeType`, as far as the transport uses it. -/
inductive ExchangeType where
  | direct
  | topic
  | fanout
  deriving DecidableEq, Repr

/-- The exchange that does what a routing kind asks for. -/
def amqpExchangeType : Routing → ExchangeType
  | .exact => .direct
  | .pattern => .topic
  | .broadcast => .fanout

/-- The flags of `declareQueue`. -/
inductive QueueFlag where
  | durable
  | exclusive
  | autodelete
  | passive
  deriving DecidableEq, Repr

/-- A value of an `AMQP::Table`. -/
inductive Argument where
  | text (value : String)
  | int32 (value : Int)
  deriving DecidableEq, Repr

/-- `shared` is the inverse of AMQP's exclusive. -/
def queueFlags (options : TopicOptions) : List QueueFlag :=
  (if options.durable then [.durable] else []) ++
    (if options.shared then [] else [.exclusive]) ++
    (if options.deleteWhenUnused then [.autodelete] else [])

/-- The arguments table of a queue.  A limit is cast to `std::int32_t`, and the overflow
policy goes with a limit only. -/
def queueArguments (topic : Topic) (options : TopicOptions) : List (String × Argument) :=
  (if options.deadLetter then
    [("x-dead-letter-exchange", .text kDeadLetterExchange),
      ("x-dead-letter-routing-key", .text topic)] else []) ++
  (if 0 < options.maxLength then
    [("x-max-length", .int32 (Int.bmod options.maxLength (2 ^ 32))),
      ("x-overflow", .text (overflowPolicyName options.overflow))] else [])

/-- What the transport asks the broker for and gets an answer to. -/
inductive Request where
  | declareExchange (group : String) (type : ExchangeType) (durable : Bool)
  | declareQueue (topic : Topic) (flags : List QueueFlag) (arguments : List (String × Argument))
  | bindQueue (group : String) (topic : Topic) (key : String)
  | purgeQueue (topic : Topic)
  | setQos (prefetch : Nat)
  | consume (topic : Topic)
  deriving DecidableEq, Repr

/-- An `AMQP::Channel`.  A usable one sends a close frame when it is destroyed. -/
structure Channel where
  /-- Auxiliary: the number of this channel among those of its transport. -/
  generation : Nat
  usable : Bool := true
  /-- requests that are not answered yet, oldest first -/
  pending : List Request := []
  /-- the topics a consumer is registered for -/
  consumers : List Topic := []
  /-- the number of the last delivery -/
  lastTag : Nat := 0
  /-- Auxiliary: the requests the broker has answered on this channel, oldest first. -/
  granted : List Request := []
  /-- Auxiliary: what was declared and consumed from on this channel, oldest first. -/
  declared : List (Topic × TopicOptions) := []
  consumed : List Topic := []
  deriving DecidableEq, Repr

/-- The effect of the answer to a request, when others are still pending. -/
def Channel.settleRequest (channel : Channel) (request : Request) (rest : List Request) :
    Channel :=
  let granted := channel.granted ++ [request]
  match request with
  | .consume topic => { channel with
      pending := rest, granted := granted, consumers := topic :: channel.consumers }
  | _ => { channel with pending := rest, granted := granted }

/-- What the callbacks of the request being waited for have written. -/
structure Answer where
  done : Bool := false
  failure : String := ""
  count : Nat := 0
  deriving DecidableEq, Repr

/-- A binding of the topic to its group. -/
structure RouteBinding where
  group : String
  key : String
  deriving DecidableEq, Repr

/-- A message as it is handed to the channel. -/
structure Publication where
  exchange : String
  routingKey : String
  body : Bytes
  persistent : Bool
  deriving DecidableEq, Repr

/-- A delivery's place: the channel it was made on and its number there. -/
structure Place where
  generation : Nat
  tag : Nat
  deriving DecidableEq, Repr

/-- A final disposition, as it is begun. -/
structure Resolution where
  place : Place
  disposition : Disposition
  /-- whether the channel and its connection take frames -/
  sendable : Bool
  deriving DecidableEq, Repr

/-- A throw of the handler. -/
structure Abandonment where
  place : Place
  what : String
  /-- the failure that was stashed already -/
  stashed : Option String
  deriving DecidableEq, Repr

/-- The fields of a transport that belong to its use of the connection. -/
structure Session where
  channel : Option Channel := none
  /-- Whether `_handler` is callable; what it does is the environment's choice. -/
  handler : Bool := false
  stats : Stats := {}
  outstandingDeferred : Finset Nat := ∅
  endpoint : Endpoint := {}
  policy : ReconnectPolicy := {}
  memory : Memory := {}
  failedAttempts : Nat := 0
  nextAttempt : Int := 0
  handlerFailure : Option String := none
  routes : Topic → Option RouteBinding := fun _ => none
  answer : Answer := {}
  /-- Auxiliary: channels opened so far. -/
  generation : Nat := 0
  /-- Auxiliary: the handler's invocations, newest first. -/
  handed : List (Place × Delivery) := []
  /-- Auxiliary: the deliveries `settle` has resolved, newest first. -/
  settled : List (Place × Disposition) := []
  /-- Auxiliary: the messages the channel accepted, newest first. -/
  published : List Publication := []
  /-- Auxiliary: reconnection attempts made. -/
  attempts : Nat := 0
  /-- Auxiliary: the final dispositions that were carried out, newest first. -/
  resolutions : List Resolution := []
  /-- Auxiliary: the ack, reject and requeue frames the channel accepted, newest first. -/
  accepted : List Disposition := []
  /-- Auxiliary: the throws of the handler, newest first. -/
  abandonments : List Abandonment := []
  /-- Auxiliary: the failures `pump` has thrown again, newest first. -/
  rethrown : List String := []

/-- What the library reports about the channel. -/
inductive ChannelEvent where
  /-- the oldest request succeeded -/
  | answered (count : Nat)
  /-- the channel was closed -/
  | failed (message : Option String)
  /-- the broker cancelled a consumer -/
  | cancelled (topic : Topic)
  /-- a delivery, what the handler makes of it, and the write of the resolution -/
  | received (body : Bytes) (redelivered : Bool) (outcome : HandlerOutcome) (out : Outbound)
  deriving DecidableEq, Repr

namespace Session

open AmqpConnection

/-- A write to the fields of the owner while the connection is served. -/
def modifySession (f : Session → Session) : Serving Session Unit :=
  modify fun w => { w with owner := f w.owner }

/-- A write to the channel, if there is one. -/
def modifyChannel (f : Channel → Channel) : Serving Session Unit :=
  modifySession fun s => { s with channel := s.channel.map f }

/-- A frame of the channel: `false` when the channel or the connection is closed. -/
def emit (out : Outbound) : Serving Session Bool := do
  let w ← get
  match w.owner.channel with
  | none => pure false
  | some channel =>
      if channel.usable ∧ w.connection.library = .usable then do
        onWire (onData out)
        pure true
      else pure false

/-- The channel and its connection take frames. -/
def isSendable (w : Wire Session) : Bool :=
  w.owner.channel.any Channel.usable && decide (w.connection.library = .usable)

/-- `_channel->ack` or `_channel->reject`, whose result is not looked at. -/
def resolve (tag : Nat) (disposition : Disposition) (out : Outbound) : Serving Session Unit := do
  modify fun w => { w with owner := { w.owner with
    resolutions := ⟨⟨w.owner.generation, tag⟩, disposition, isSendable w⟩ :: w.owner.resolutions } }
  let sent ← emit out
  if sent then modifySession fun s => { s with accepted := disposition :: s.accepted }
  else pure ()

/-- The switch shared by `onReceived` and `settle`. -/
def perform (tag : Nat) (out : Outbound) : Disposition → Serving Session Unit
  | .ack => do
      resolve tag .ack out
      modifySession fun s => { s with stats.acksPerformed := s.stats.acksPerformed + 1 }
  | .requeue => do
      resolve tag .requeue out
      modifySession fun s => { s with stats.requeuesPerformed := s.stats.requeuesPerformed + 1 }
  | .reject => do
      resolve tag .reject out
      modifySession fun s => { s with stats.rejectsPerformed := s.stats.rejectsPerformed + 1 }
  | .deferred =>
      modifySession fun s => { s with outstandingDeferred := insert tag s.outstandingDeferred }

/-- The callback `onReceived`, once a delivery has its number. -/
def onReceived (tag : Nat) (outcome : HandlerOutcome) (out : Outbound) : Serving Session Unit :=
  match outcome with
  | .threw what =>
      -- stashed: thrown again by `pump`, outside the library's parser
      modifySession fun s => { s with
        handlerFailure := some what, stats.abandoned := s.stats.abandoned + 1
        abandonments := ⟨⟨s.generation, tag⟩, what, s.handlerFailure⟩ :: s.abandonments }
  | .returned disposition => perform tag out disposition

/-- The callbacks of the transport, by what the library reports. -/
def react : ChannelEvent → Serving Session Unit
  | .answered count => do
      let w ← get
      match w.owner.channel with
      | none => pure ()
      | some channel =>
          match channel.pending with
          | [] => pure ()
          | request :: rest => do
              modifyChannel fun ch => ch.settleRequest request rest
              -- the request waited for is the last one made
              if rest = [] then
                modifySession fun s => { s with
                  answer := { s.answer with done := true, count := count } }
              else pure ()
  | .failed message => do
      let w ← get
      match w.owner.channel with
      | none => pure ()
      | some channel => do
          modifyChannel fun ch => { ch with usable := false, pending := [], consumers := [] }
          if channel.pending = [] then pure ()
          else modifySession fun s => { s with
            answer := { s.answer with failure := message.getD "unknown error" } }
  | .cancelled topic => modifyChannel fun ch => { ch with consumers := ch.consumers.erase topic }
  | .received body redelivered outcome out => do
      let w ← get
      match w.owner.channel with
      | none => pure ()
      | some channel =>
          if channel.usable ∧ channel.consumers ≠ [] then do
            let tag := channel.lastTag + 1
            modifySession fun s => { s with
              channel := some { channel with lastTag := tag }
              handed := (⟨channel.generation, tag⟩, ⟨body, redelivered, tag⟩) :: s.handed
              stats.received := s.stats.received + 1 }
            onReceived tag outcome out
          else pure ()

/-! ## Asking and waiting -/

/-- Put a request on the channel. -/
def post (request : Request) (out : Outbound) : Serving Session Bool := do
  let sent ← emit out
  if sent then do
    modifyChannel fun ch => { ch with pending := ch.pending ++ [request] }
    pure true
  else pure false

/-- Put a request on the channel, or note that it could not be sent. -/
def submit (request : Request) (out : Outbound) : Serving Session Unit := do
  let sent ← post request out
  if sent then pure ()
  else modifySession fun s => { s with answer := { failure := "Frame could not be sent" } }

/-- What one wait for an answer meets: the write of the request, and the turns. -/
structure Wait where
  out : Outbound := {}
  turns : List (Turn ChannelEvent) := []
  deriving DecidableEq, Repr

/-- The wait is over: the request succeeded or failed. -/
def isAnswered (w : Wire Session) : Bool := w.owner.answer.done || w.owner.answer.failure != ""

/-- A request, the wait for its answer, and what is thrown without one. -/
def ask (request : Request) (wait : Wait) (refused : String → String) (timedOut : String) :
    Serving Session Nat := do
  modifySession fun s => { s with answer := {} }
  submit request wait.out
  let _ ← pumpUntil react isAnswered wait.turns
  let w ← get
  let answer := w.owner.answer
  if answer.failure ≠ "" then throw (.runtimeError (refused answer.failure))
  else if answer.done = false then throw (.runtimeError timedOut)
  else pure answer.count

/-- What the declaration of one destination meets. -/
structure DestinationEnv where
  exchange : Wait := {}
  queue : Wait := {}
  bind : Wait := {}
  deriving DecidableEq, Repr

/-- What a declaration meets. -/
structure DeclareEnv where
  forensic : DestinationEnv := {}
  destination : DestinationEnv := {}
  deriving DecidableEq, Repr

/-- Declare the group of a destination, if it has one. -/
def declareGroup (options : TopicOptions) (wait : Wait) : Serving Session Unit :=
  if options.group = "" then pure ()
  else do
    let _ ← ask (.declareExchange options.group (amqpExchangeType options.routing) options.durable)
      wait
      (fun failure => "cannot declare group '" ++ options.group ++ "': " ++ failure ++
        " (a PRECONDITION_FAILED here means the exchange already exists with a" ++
        " different type; every declarer must agree on Exact/Pattern/Broadcast)")
      ("timed out declaring group '" ++ options.group ++ "'")
    pure ()

/-- Bind a destination into its group, if it has one. -/
def bindGroup (topic : Topic) (options : TopicOptions) (wait : Wait) : Serving Session Unit :=
  if options.group = "" then pure ()
  else do
    let key := if options.route = "" then topic else options.route
    let _ ← ask (.bindQueue options.group topic key) wait
      (fun failure => "cannot bind topic '" ++ topic ++ "' into group '" ++ options.group ++
        "': " ++ failure)
      ("timed out binding topic '" ++ topic ++ "'")
    modifySession fun s => { s with
      routes := fun t => if t = topic then some ⟨options.group, key⟩ else s.routes t }

/-- `declare` without its call of itself. -/
def declareDestination (topic : Topic) (options : TopicOptions) (env : DestinationEnv) :
    Serving Session Nat := do
  declareGroup options env.exchange
  let waiting ← ask (.declareQueue topic (queueFlags options) (queueArguments topic options))
    env.queue
    (fun failure => "cannot declare topic '" ++ topic ++ "': " ++ failure ++
      " (a PRECONDITION_FAILED here means an existing destination was declared with" ++
      " different properties -- durable/shared/deleteWhenUnused/deadLetter/maxLength/overflow " ++
      "must match everywhere; changing queue properties requires the documented " ++
      "delete-and-recreate migration)")
    ("timed out declaring topic '" ++ topic ++ "'")
  bindGroup topic options env.bind
  pure waiting

/-- Provision the forensic destination of a topic, if it is to have one. -/
def declareForensic (topic : Topic) (options : TopicOptions) (env : DestinationEnv) :
    Serving Session Unit :=
  if options.deadLetter then do
    let _ ← declareDestination (deadLetterTopic topic) (forensicTopicOptions topic) env
    pure ()
  else pure ()

/-- Declare a topic, its forensic destination first.  `declared` keeps the pair that
was asked for; the forensic destination goes with it. -/
def declare (topic : Topic) (options : TopicOptions) (env : DeclareEnv) :
    Serving Session Nat := do
  modifyChannel fun ch => { ch with declared := ch.declared ++ [(topic, options)] }
  declareForensic topic options env.forensic
  declareDestination topic options env.destination

/-- What the start of consumption meets. -/
structure ConsumeEnv where
  qos : Outbound := {}
  consume : Wait := {}
  deriving DecidableEq, Repr

/-- Register the stored handler on the stored topic. -/
def startConsuming (env : ConsumeEnv) : Serving Session Unit := do
  let w ← get
  let topic := w.owner.memory.topic
  modifyChannel fun ch => { ch with consumed := ch.consumed ++ [topic] }
  let _ ← post (.setQos 1) env.qos
  let _ ← ask (.consume topic) env.consume
    (fun failure => "failed to subscribe to '" ++ topic ++ "': " ++ failure)
    ("timed out subscribing to '" ++ topic ++ "'")
  pure ()

/-- The frame that opens a channel. -/
def sendOpen (out : Outbound) : Serving Session Unit := do
  let w ← get
  if w.connection.library = .usable then onWire (onData out) else pure ()

/-- The construction of a channel, which opens it at the broker. -/
def openChannel (out : Outbound) : Serving Session Unit := do
  sendOpen out
  modify fun w => { w with owner := { w.owner with
    channel := some { generation := w.owner.generation + 1
                      usable := decide (w.connection.library = .usable) }
    generation := w.owner.generation + 1 } }

end Session

end Motus.Amqp
