import Motus.Amqp.Memory
import Motus.Amqp.Connection
import Motus.Foundation.Machine

set_option autoImplicit false

/-!
# The transport over SimpleAmqpClient (`src/transport/SimpleAmqpTransport.cpp`)

SimpleAmqpClient blocks: a call on its channel returns or throws, and which of the
two is the environment's choice.  A method is a computation over the object.

The texts of its errors are those of the source, and what the source catches is caught
here: `close` swallows what the cancellation throws, and an attempt to reconnect counts
what it is thrown as a failure.
-/

namespace Motus.Amqp

open Motus.Foundation Motus.Transport

/-- An `AmqpClient::Channel`. -/
structure ClientChannel where
  /-- Auxiliary: what was declared and consumed from on this channel, oldest first. -/
  declared : List (Topic × TopicOptions) := []
  consumed : List Topic := []
  deriving DecidableEq, Repr

/-- `SimpleAmqpTransport`, whose library blocks and throws: each of its calls is an outcome
of the environment. -/
structure SimpleAmqpTransport where
  channel : Option ClientChannel := none
  connected : Bool := false
  consumerTag : String := ""
  /-- Whether `_handler` is callable; what it does is the environment's choice. -/
  handler : Bool := false
  stats : Stats := {}
  endpoint : Endpoint := {}
  policy : ReconnectPolicy := {}
  memory : Memory := {}
  failedAttempts : Nat := 0
  nextAttempt : Int := 0
  deriving DecidableEq, Repr

namespace SimpleAmqpTransport

/-- A method of `SimpleAmqpTransport`. -/
abbrev Method (α : Type) : Type := Exec Exn SimpleAmqpTransport α

/-- What a call of the library throws, if it throws. -/
abbrev Thrown : Type := Option Exn

/-- A call of the library that returns nothing. -/
def library (thrown : Thrown) : Method Unit :=
  match thrown with
  | none => pure ()
  | some exn => throw exn

/-- `if (!_channel) throw`. -/
def requireChannel (method : String) : Method Unit := do
  let t ← get
  if t.channel.isNone then throw (.logicError (method ++ "() called before connect()"))
  else pure ()

/-! ## Connecting -/

/-- How the probe of the endpoint ends. -/
inductive Probe where
  | unresolved (ec : ErrorCode)
  | timedOut (milliseconds : Nat)
  | refused (ec : ErrorCode) (value : Int)
  | reachable
  deriving DecidableEq, Repr

/-- `probeReachable`: a plain TCP connection before the library tries its own. -/
def probeReachable (host : String) (port : Nat) : Probe → Method Unit
  | .unresolved ec =>
      throw (.runtimeError ("cannot resolve '" ++ host ++ "': " ++ ec.message ++
        " (pass an IP literal such as 127.0.0.1 instead -- restrictive DNS policy can" ++
        " break even localhost lookups)"))
  | .timedOut milliseconds =>
      throw (.runtimeError ("timed out after " ++ toString milliseconds ++ "ms connecting to " ++
        host ++ ":" ++ toString port))
  | .refused ec value =>
      throw (.runtimeError ("cannot reach broker at " ++ host ++ ":" ++ toString port ++ " -- " ++
        ec.message ++ " (value=" ++ toString value ++ "; is rabbitmq-server.bat running?)"))
  | .reachable => pure ()

/-- What the opening of a channel meets. -/
structure OpenEnv where
  probe : Probe := .reachable
  create : Thrown := none
  deriving DecidableEq, Repr

/-- `openChannel`: the probe, then the library's channel. -/
def openChannel (env : OpenEnv) : Method Unit := do
  let t ← get
  probeReachable t.endpoint.host (if t.endpoint.port = 0 then 5672 else t.endpoint.port) env.probe
  library env.create
  modify fun t => { t with channel := some {}, connected := true }

/-- `connect`: the endpoint is kept for later attempts before the first one is made. -/
def connect (endpoint : Endpoint) (env : OpenEnv) : Method Unit := do
  modify fun t => { t with endpoint := endpoint }
  openChannel env

/-- `close`: the cancellation of a consumer is tried, and what it throws is logged. -/
def close : Method Unit :=
  modify fun t => { t with
    channel := none, connected := false, consumerTag := "", handler := false
    memory := t.memory.close }

/-- `ready()`. -/
def isReady (t : SimpleAmqpTransport) : Bool := t.connected && t.channel.isSome

/-- `setReconnectPolicy`: the attempts are counted anew. -/
def setReconnectPolicy (policy : ReconnectPolicy) : Method Unit :=
  modify fun t => { t with policy := policy, failedAttempts := 0, nextAttempt := 0 }

/-! ## Declaring, sending and consuming -/

/-- What a declaration meets. -/
structure DeclareEnv where
  exchange : Thrown := none
  forensicQueue : Thrown := none
  bind : Thrown := none
  queue : Thrown := none
  deriving DecidableEq, Repr

/-- The calls that provision a forensic destination. -/
def declareForensic (options : TopicOptions) (env : DeclareEnv) : Method Unit :=
  if options.deadLetter then do
    library env.exchange
    library env.forensicQueue
    library env.bind
  else pure ()

/-- `ensureTopic`.  `declared` keeps the pair that was asked for; the forensic
destination goes with it. -/
def ensureTopic (topic : Topic) (options : TopicOptions) (env : DeclareEnv) : Method Unit := do
  requireChannel "ensureTopic"
  modify fun t => { t with channel := t.channel.map fun ch =>
    { ch with declared := ch.declared ++ [(topic, options)] } }
  declareForensic options env
  library env.queue
  modify fun t => { t with memory := t.memory.store topic options }

/-- The kind of declaration that a look at the depth of a topic repeats: the options
of another topic than the last declared one are not known. -/
def depthOptions (t : SimpleAmqpTransport) (topic : Topic) : TopicOptions :=
  if kDeadLetterPrefix.toList.isPrefixOf topic.toList then
    forensicTopicOptions (String.ofList (topic.toList.drop kDeadLetterPrefix.length))
  else if t.memory.topicDeclared ∧ topic = t.memory.topic then t.memory.topicOptions
  else {}

/-- `topicDepth`: the library declares the queue as `depthOptions` says, and counts. -/
def topicDepth (env : Except Exn Nat) : Method Nat := do
  requireChannel "topicDepth"
  match env with
  | .ok messages => pure messages
  | .error exn => throw exn

/-- `purgeTopic`: the library's purge returns nothing, so the depth is read first. -/
def purgeTopic (depth : Except Exn Nat) (purge : Thrown) : Method Nat := do
  requireChannel "purgeTopic"
  let before ← topicDepth depth
  library purge
  pure before

/-- `send`: counted when the library's `BasicPublish` returns. -/
def send (payload : Bytes) (options : SendOptions) (publish : Thrown) : Method Bool := do
  requireChannel "send"
  if options.confirm then
    throw (.logicError ("backend 'simpleamqp' does not support publisher confirms " ++
      "(Capabilities::publisherConfirms is false); SimpleAmqpClient's Channel exposes no " ++
      "confirm API at all. Check the capability before requesting it."))
  else do
    library publish
    modify fun t => { t with
      stats.sent := t.stats.sent + 1, stats.bytesSent := t.stats.bytesSent + payload.length }
    pure true

/-- `startConsuming`; the library returns the tag of the new consumer. -/
def startConsuming (consume : Except Exn String) : Method Unit := do
  modify fun t => { t with channel := t.channel.map fun ch =>
    { ch with consumed := ch.consumed ++ [t.memory.topic] } }
  match consume with
  | .ok tag => modify fun t => { t with consumerTag := tag }
  | .error exn => throw exn

/-- `subscribe`: one consumer for each transport. -/
def subscribe (topic : Topic) (callable : Bool) (consume : Except Exn String) : Method Unit := do
  requireChannel "subscribe"
  let t ← get
  if callable = false then
    throw (.invalidArgument "subscribe() requires a callable handler")
  else if t.memory.subscribed then
    throw (.logicError ("subscribe() called twice on one transport; use one transport per " ++
      "topic instead of overwriting the active subscription to '" ++ t.memory.topic ++ "'"))
  else do
    modify fun t => { t with handler := true, memory := t.memory.name topic }
    startConsuming consume
    modify fun t => { t with memory := t.memory.subscribe topic }

/-! ## Reconnecting -/

/-- What a reconnection attempt meets.  `shifted` and `added` are what the backoff
yields where the language leaves it undefined. -/
structure ReconnectEnv where
  now : Int := 0
  opening : OpenEnv := {}
  declare : DeclareEnv := {}
  consume : Except Exn String := .ok ""
  later : Int := 0
  shifted : Int := 0
  added : Int := 0

/-- The next attempt after a failed one, `failedAttempts` of them in a row. -/
def ReconnectEnv.next (env : ReconnectEnv) (policy : ReconnectPolicy) (failedAttempts : Nat) :
    Int :=
  addDelay env.later (policy.delay failedAttempts env.shifted) env.added

/-- The step of a reconnection that declares the remembered topic. -/
def redeclare (env : DeclareEnv) : Method Unit := do
  let t ← get
  if t.memory.topicDeclared then ensureTopic t.memory.topic t.memory.topicOptions env
  else pure ()

/-- The step of a reconnection that consumes again. -/
def reconsume (consume : Except Exn String) : Method Unit := do
  let t ← get
  if t.memory.subscribed then startConsuming consume else pure ()

/-- The body of the `try` in `serviceReconnect`. -/
def attempt (env : ReconnectEnv) : Method Bool := do
  modify fun t => { t with channel := none }
  openChannel env.opening
  redeclare env.declare
  reconsume env.consume
  modify fun t => { t with failedAttempts := 0, stats.reconnects := t.stats.reconnects + 1 }
  pure true

/-- `serviceReconnect`: `false` when the policy leaves no attempt. -/
def serviceReconnect (env : ReconnectEnv) : Method Bool := do
  let t ← get
  if t.policy.enabled = false then pure false
  else if t.policy.maxAttempts ≤ t.failedAttempts then pure false
  else if env.now < t.nextAttempt then pure true
  else do
    modify fun t => { t with failedAttempts := t.failedAttempts + 1 }
    tryCatch (attempt env) fun exn =>
      if isStdException exn then do
        modify fun t => { t with
          nextAttempt := env.next t.policy t.failedAttempts, connected := false }
        pure true
      else throw exn

/-- How the blocking receive of one `pump` ends. -/
inductive Receive where
  | nothing
  /-- an exception of the library: the peer is gone -/
  | lost
  /-- a delivery, what the handler makes of it, and the call that resolves it -/
  | delivered (body : Bytes) (outcome : HandlerOutcome) (resolve : Thrown)

/-- What one `pump` meets. -/
structure PumpEnv where
  receive : Receive := .nothing
  reconnect : ReconnectEnv := {}

/-- `pump` once the handler has returned. -/
def perform (resolve : Thrown) : Disposition → Method Unit
  | .ack => do
      library resolve
      modify fun t => { t with stats.acksPerformed := t.stats.acksPerformed + 1 }
  | .requeue => do
      library resolve
      modify fun t => { t with stats.requeuesPerformed := t.stats.requeuesPerformed + 1 }
  | .reject => do
      library resolve
      modify fun t => { t with stats.rejectsPerformed := t.stats.rejectsPerformed + 1 }
  | .deferred => pure ()   -- the switch has no case for it

/-- `pump`: one message at most, and what its handler returns is carried out before it
returns. -/
def pump (env : PumpEnv) : Method Bool := do
  let t ← get
  if t.isReady = false then serviceReconnect env.reconnect
  else if t.memory.subscribed = false ∨ t.handler = false then pure true
  else
    match env.receive with
    | .nothing => pure true
    | .lost => do
        modify fun t => { t with connected := false }
        serviceReconnect env.reconnect
    | .delivered body outcome resolve => do
        modify fun t => { t with
          stats.received := t.stats.received + 1
          stats.bytesReceived := t.stats.bytesReceived + body.length }
        match outcome with
        | .threw what => do
            modify fun t => { t with stats.abandoned := t.stats.abandoned + 1 }
            throw (.handler what)
        | .returned disposition => do
            perform resolve disposition
            pure true

/-! ### Evaluation -/

theorem requireChannel_bind {α : Type} (method : String) (f : Unit → Method α)
    (t : SimpleAmqpTransport) :
    (requireChannel method >>= f) t =
      if t.channel.isNone then
        (.error (.logicError (method ++ "() called before connect()")), t)
      else f () t := by
  unfold requireChannel
  rw [Exec.bind_apply, Exec.get_bind]
  cases t.channel <;> rfl

theorem serviceReconnect_apply (env : ReconnectEnv) (t : SimpleAmqpTransport) :
    serviceReconnect env t =
      if t.policy.enabled = false then (.ok false, t)
      else if t.policy.maxAttempts ≤ t.failedAttempts then (.ok false, t)
      else if env.now < t.nextAttempt then (.ok true, t)
      else
        match attempt env { t with failedAttempts := t.failedAttempts + 1 } with
        | (.ok b, t') => (.ok b, t')
        | (.error exn, t') =>
            if isStdException exn then
              (.ok true, { t' with
                nextAttempt := env.next t'.policy t'.failedAttempts, connected := false })
            else (.error exn, t') := by
  simp only [serviceReconnect, Exec.get_bind]
  split
  · rfl
  split
  · rfl
  split
  · rfl
  rw [Exec.modify_bind, Exec.tryCatch_apply]
  rcases attempt env _ with ⟨r, t'⟩
  cases r with
  | ok b => rfl
  | error exn => dsimp only; split <;> rfl

/-! ## The transport as a machine -/

/-- A call on the transport and what it meets. -/
inductive Call where
  | connect (endpoint : Endpoint) (env : OpenEnv)
  | setReconnectPolicy (policy : ReconnectPolicy)
  | ensureTopic (topic : Topic) (options : TopicOptions) (env : DeclareEnv)
  | topicDepth (env : Except Exn Nat)
  | purgeTopic (depth : Except Exn Nat) (purge : Thrown)
  | send (payload : Bytes) (options : SendOptions) (publish : Thrown)
  | subscribe (topic : Topic) (callable : Bool) (consume : Except Exn String)
  | pump (env : PumpEnv)
  | close

/-- The method a call is of; its result is not looked at.  That `ensureTopic` has
returned is noted for the caller's own calls only, not for those of a reconnection. -/
def Call.method : Call → Method Unit
  | .connect endpoint env => SimpleAmqpTransport.connect endpoint env
  | .setReconnectPolicy policy => SimpleAmqpTransport.setReconnectPolicy policy
  | .ensureTopic topic options env => do
      SimpleAmqpTransport.ensureTopic topic options env
      modify fun t => { t with memory := t.memory.note (.ensured topic options) }
  | .topicDepth env => (fun _ => ()) <$> SimpleAmqpTransport.topicDepth env
  | .purgeTopic depth purge => (fun _ => ()) <$> SimpleAmqpTransport.purgeTopic depth purge
  | .send payload options publish =>
      (fun _ => ()) <$> SimpleAmqpTransport.send payload options publish
  | .subscribe topic callable consume => SimpleAmqpTransport.subscribe topic callable consume
  | .pump env => (fun _ => ()) <$> SimpleAmqpTransport.pump env
  | .close => SimpleAmqpTransport.close

/-- Calls on one transport. -/
def machine : Machine SimpleAmqpTransport Call where
  init := {}
  step t call := (call.method t).2

end SimpleAmqpTransport

end Motus.Amqp
