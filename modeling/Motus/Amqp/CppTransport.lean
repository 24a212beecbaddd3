import Motus.Amqp.Session
import Motus.Foundation.Machine

set_option autoImplicit false

/-!
# The transport over AMQP-CPP (`src/transport/AmqpCppTransport.cpp`)

A method is a computation over the connection and the rest of the object.  What
the environment decides (the broker's answers, the writes, the clock, what the
handler returns) is the last argument of a method.  `~Channel` and `~Connection`
write a frame; a throw that would leave one of them ends the process.
-/

namespace Motus.Amqp

open Motus.Foundation Motus.Transport AmqpConnection Session

/-- `AmqpCppTransport`: the connection, which is absent before `connect`, and the rest of
its fields. -/
structure AmqpCppTransport where
  connection : Option AmqpConnection := none
  session : Session := {}

namespace AmqpCppTransport

/-- A method of `AmqpCppTransport`. -/
abbrev Method (α : Type) : Type := Exec Exn AmqpCppTransport α

/-- Serve the connection.  There always is one where a method does so: a channel
exists only together with its connection. -/
def serve {α : Type} (x : Serving Session α) : Method α := fun t =>
  match t.connection with
  | none => (.error (.logicError "connection() called before connect()"), t)
  | some c =>
      ((x ⟨c, t.session⟩).1,
        { t with connection := some (x ⟨c, t.session⟩).2.connection
                 session := (x ⟨c, t.session⟩).2.owner })

/-- A write to the fields of the transport. -/
def modifySession (f : Session → Session) : Method Unit :=
  modify fun t => { t with session := f t.session }

/-- A write to what the transport remembers for a reconnection. -/
def modifyMemory (f : Memory → Memory) : Method Unit :=
  modifySession fun s => { s with memory := f s.memory }

/-- `if (!_channel) throw`. -/
def requireChannel (method : String) : Method Unit := do
  let t ← get
  if t.session.channel.isNone then throw (.logicError (method ++ "() called before connect()"))
  else pure ()

/-! ## Connecting -/

/-- `_channel.reset()`: `~Channel` writes a close frame, unless its connection is gone. -/
def resetChannel (out : Outbound) : Method Unit := do
  let t ← get
  if t.connection.isSome ∧ t.session.channel.isSome then do
    let _ ← fromDestructor (serve (emit out))
    modifySession fun s => { s with channel := none }
  else modifySession fun s => { s with channel := none }

/-- `_connection.reset()`.  A channel that is left is detached from its connection. -/
def resetConnection (env : TeardownEnv ChannelEvent) : Method Unit := do
  let t ← get
  match t.connection with
  | none => pure ()
  | some _ => do
      serve (AmqpConnection.destroy react env)
      modify fun t => { t with
        connection := none
        session := { t.session with
          channel := t.session.channel.map fun ch => { ch with usable := false } } }

/-- What the opening of a connection meets. -/
structure OpenEnv where
  /-- the destruction of a connection that is replaced -/
  replaced : TeardownEnv ChannelEvent := {}
  connect : ConnectEnv ChannelEvent := {}
  channelOpen : Outbound := {}
  deriving DecidableEq, Repr

/-- Open the socket and channel against `_endpoint`. -/
def openConnection (env : OpenEnv) : Method Unit := do
  resetConnection env.replaced
  modify fun t => { t with connection := some (ofEndpoint t.session.endpoint) }
  serve (AmqpConnection.connect react env.connect)
  serve (openChannel env.channelOpen)

/-- `connect`: the endpoint is kept for later attempts before the first one is made. -/
def connect (endpoint : Endpoint) (env : OpenEnv) : Method Unit := do
  modifySession fun s => { s with endpoint := endpoint }
  openConnection env

/-- `setReconnectPolicy`: the attempts are counted anew. -/
def setReconnectPolicy (policy : ReconnectPolicy) : Method Unit :=
  modifySession fun s => { s with policy := policy, failedAttempts := 0, nextAttempt := 0 }

/-! ## Declaring, sending and consuming -/

/-- `ensureTopic`: what is declared is remembered once the broker has confirmed it. -/
def ensureTopic (topic : Topic) (options : TopicOptions) (env : DeclareEnv) : Method Unit := do
  requireChannel "ensureTopic"
  let _ ← serve (declare topic options env)
  modifyMemory (·.ensure topic options)

/-- `topicDepth`: a passive declaration, whose answer carries the number of messages. -/
def topicDepth (topic : Topic) (env : Wait) : Method Nat := do
  requireChannel "topicDepth"
  serve (ask (.declareQueue topic [.passive] []) env
    (fun failure => "cannot inspect topic '" ++ topic ++ "': " ++ failure)
    ("timed out inspecting topic '" ++ topic ++ "'"))

/-- `purgeTopic`: the number of messages removed. -/
def purgeTopic (topic : Topic) (env : Wait) : Method Nat := do
  requireChannel "purgeTopic"
  serve (ask (.purgeQueue topic) env
    (fun failure => "cannot purge topic '" ++ topic ++ "': " ++ failure)
    ("timed out purging topic '" ++ topic ++ "'"))

/-- What is published for a message: through the group its topic was declared into,
or to the queue of the topic's name.  A route overrides the key inside a group only. -/
def publication (s : Session) (topic : Topic) (payload : Bytes) (options : SendOptions) :
    Publication :=
  let exchange := ((s.routes topic).map RouteBinding.group).getD ""
  let key := ((s.routes topic).map RouteBinding.key).getD topic
  { exchange := exchange
    routingKey := if options.route ≠ "" ∧ exchange ≠ "" then options.route else key
    body := payload
    persistent := options.durable }

/-- `send`: `false`, and nothing counted, when the channel does not take the frame. -/
def send (topic : Topic) (payload : Bytes) (options : SendOptions) (out : Outbound) :
    Method Bool := do
  requireChannel "send"
  if options.confirm then
    throw (.logicError ("backend 'amqpcpp' does not support publisher confirms " ++
      "(Capabilities::publisherConfirms is false); check the capability before requesting it"))
  else do
    let accepted ← serve (emit out)
    if accepted then do
      modifySession fun s => { s with
        published := publication s topic payload options :: s.published
        stats.sent := s.stats.sent + 1 }
      pure true
    else pure false

/-- `subscribe`: one consumer for each transport. -/
def subscribe (topic : Topic) (callable : Bool) (env : ConsumeEnv) : Method Unit := do
  requireChannel "subscribe"
  let t ← get
  if callable = false then
    throw (.invalidArgument "subscribe() requires a callable handler")
  else if t.session.memory.subscribed then
    throw (.logicError ("subscribe() called twice on one transport; use one transport per " ++
      "topic instead of overwriting the active subscription to '" ++
      t.session.memory.topic ++ "'"))
  else do
    modifySession fun s => { s with handler := true, memory := s.memory.name topic }
    serve (startConsuming env)
    modifyMemory (·.subscribe topic)

/-- `settle`: the tag is struck from `_outstandingDeferred` before the frame is sent. -/
def settle (tag : Nat) (disposition : Disposition) (out : Outbound) : Method Unit := do
  requireChannel "settle"
  let t ← get
  if disposition = .deferred then
    throw (.invalidArgument ("settle() cannot be called with Disposition::Deferred; a delivery " ++
      "already deferred must be settled with Ack, Reject or Requeue"))
  else if tag ∉ t.session.outstandingDeferred then
    throw (.logicError ("settle() called for tag " ++ toString tag ++ ", which is not an " ++
      "outstanding deferred delivery on this transport (already settled, never deferred, or " ++
      "from a connection that has since been replaced)"))
  else do
    modifySession fun s => { s with
      outstandingDeferred := s.outstandingDeferred.erase tag
      settled := s.channel.toList.map (fun ch => (⟨ch.generation, tag⟩, disposition)) ++ s.settled }
    serve (perform tag out disposition)

/-! ## Reconnecting -/

/-- What a reconnection attempt meets: two readings of the clock, the teardown of
what is left of the old connection, and the steps of the attempt.  `shifted` and
`added` are what the backoff yields where the language leaves it undefined. -/
structure ReconnectEnv where
  now : Int := 0
  channelClose : Outbound := {}
  teardown : TeardownEnv ChannelEvent := {}
  opening : OpenEnv := {}
  declare : DeclareEnv := {}
  consume : ConsumeEnv := {}
  later : Int := 0
  shifted : Int := 0
  added : Int := 0
  deriving DecidableEq, Repr

/-- The next attempt after a failed one, `failedAttempts` of them in a row. -/
def ReconnectEnv.next (env : ReconnectEnv) (policy : ReconnectPolicy) (failedAttempts : Nat) :
    Int :=
  addDelay env.later (policy.delay failedAttempts env.shifted) env.added

/-- The step of a reconnection that declares the remembered topic. -/
def redeclare (env : DeclareEnv) : Method Unit := do
  let t ← get
  let m := t.session.memory
  if m.topicDeclared then do
    let _ ← serve (declare m.topic m.topicOptions env)
    pure ()
  else pure ()

/-- The step of a reconnection that consumes again. -/
def reconsume (env : ConsumeEnv) : Method Unit := do
  let t ← get
  if t.session.memory.subscribed then serve (startConsuming env) else pure ()

/-- The body of the `try` in `serviceReconnect`. -/
def attempt (env : ReconnectEnv) : Method Bool := do
  resetChannel env.channelClose
  resetConnection env.teardown
  modifySession fun s => { s with outstandingDeferred := ∅ }
  openConnection env.opening
  redeclare env.declare
  reconsume env.consume
  modifySession fun s => { s with
    failedAttempts := 0, stats.reconnects := s.stats.reconnects + 1 }
  pure true

/-- One reconnection attempt, if the policy allows and enough backoff has elapsed. -/
def serviceReconnect (env : ReconnectEnv) : Method Bool := do
  let t ← get
  let s := t.session
  if s.policy.enabled = false then pure false
  else if s.policy.maxAttempts ≤ s.failedAttempts then pure false
  else if env.now < s.nextAttempt then pure true
  else do
    modifySession fun s => { s with
      failedAttempts := s.failedAttempts + 1, attempts := s.attempts + 1 }
    tryCatch (attempt env) fun exn =>
      if isStdException exn then do
        modifySession fun s => { s with
          nextAttempt := env.next s.policy s.failedAttempts }
        pure true
      else throw exn

/-- What one `pump` meets. -/
structure PumpEnv where
  turns : List (Turn ChannelEvent) := []
  reconnect : ReconnectEnv := {}
  deriving DecidableEq, Repr

/-- The rest of `pump`, once the socket has been served for the slice. -/
def pumpServed (env : PumpEnv) : Method Bool := do
  let t ← get
  match t.session.handlerFailure with
  | some what => do
      modifySession fun s => { s with handlerFailure := none, rethrown := what :: s.rethrown }
      throw (.handler what)
  | none => do
      let closed := t.connection.any AmqpConnection.isClosed
      if closed ∧ t.session.policy.enabled then serviceReconnect env.reconnect
      else pure (!closed)

/-- `pump`: a closed connection goes to the reconnection, and only an open one is served
and its handler's failure thrown again. -/
def pump (env : PumpEnv) : Method Bool := do
  let t ← get
  if t.connection.all AmqpConnection.isClosed then serviceReconnect env.reconnect
  else do
    let _ ← serve (pumpUntil react (fun _ => false) env.turns)
    pumpServed env

/-! ### Evaluation -/

/-- The state in which an attempt begins. -/
def beginAttempt (t : AmqpCppTransport) : AmqpCppTransport :=
  { t with session := { t.session with
      failedAttempts := t.session.failedAttempts + 1, attempts := t.session.attempts + 1 } }

theorem serviceReconnect_apply (env : ReconnectEnv) (t : AmqpCppTransport) :
    serviceReconnect env t =
      if t.session.policy.enabled = false then (.ok false, t)
      else if t.session.policy.maxAttempts ≤ t.session.failedAttempts then (.ok false, t)
      else if env.now < t.session.nextAttempt then (.ok true, t)
      else
        match attempt env t.beginAttempt with
        | (.ok b, t') => (.ok b, t')
        | (.error exn, t') =>
            if isStdException exn then
              (.ok true, { t' with session := { t'.session with
                nextAttempt := env.next t'.session.policy t'.session.failedAttempts } })
            else (.error exn, t') := by
  simp only [serviceReconnect, Exec.get_bind]
  split
  · rfl
  split
  · rfl
  split
  · rfl
  unfold modifySession
  rw [Exec.modify_bind, Exec.tryCatch_apply]
  unfold beginAttempt
  rcases attempt env _ with ⟨r, t'⟩
  cases r with
  | ok b => rfl
  | error exn => dsimp only; split <;> rfl

theorem pumpServed_apply (env : PumpEnv) (t : AmqpCppTransport) :
    pumpServed env t =
      match t.session.handlerFailure with
      | some what =>
          (.error (.handler what), { t with session := { t.session with
            handlerFailure := none, rethrown := what :: t.session.rethrown } })
      | none =>
          if t.connection.any AmqpConnection.isClosed ∧ t.session.policy.enabled then
            serviceReconnect env.reconnect t
          else (.ok (!t.connection.any AmqpConnection.isClosed), t) := by
  simp only [pumpServed, Exec.get_bind]
  cases t.session.handlerFailure with
  | some what => rfl
  | none => dsimp only; split <;> rfl

theorem pump_apply (env : PumpEnv) (t : AmqpCppTransport) :
    pump env t =
      if t.connection.all AmqpConnection.isClosed then serviceReconnect env.reconnect t
      else
        match serve (pumpUntil react (fun _ => false) env.turns) t with
        | (.ok _, t') => pumpServed env t'
        | (.error exn, t') => (.error exn, t') := by
  simp only [pump, Exec.get_bind]
  split
  · rfl
  rw [Exec.bind_apply]
  rcases serve (pumpUntil react (fun _ => false) env.turns) t with ⟨r, t'⟩
  cases r <;> rfl

/-! ## Closing -/

/-- What a `close` or a destruction meets. -/
structure CloseEnv where
  channelClose : Outbound := {}
  close : Outbound := {}
  turns : List (Turn ChannelEvent) := []
  last : Outbound := {}
  deriving DecidableEq, Repr

/-- `if (_connection) _connection->close(timeout)`. -/
def closeConnection (env : CloseEnv) : Method Unit := do
  let t ← get
  if t.connection.isSome then serve (AmqpConnection.close react env.close env.turns) else pure ()

/-- `close`: the channel goes first, then the connection; the policy stays. -/
def close (env : CloseEnv) : Method Unit := do
  modifySession fun s => { s with outstandingDeferred := ∅ }
  resetChannel env.channelClose
  closeConnection env
  modifySession fun s => { s with handler := false, memory := s.memory.close }

/-- The destructor: what its `try` guards are two destructors, which cannot throw. -/
def destroy (env : CloseEnv) : Method Unit :=
  swallow do
    resetChannel env.channelClose
    resetConnection ⟨env.close, env.turns, env.last⟩

/-- `ready()`. -/
def isReady (t : AmqpCppTransport) : Bool := t.connection.any AmqpConnection.isReady

/-- `stats()`. -/
def statsSnapshot (t : AmqpCppTransport) : Stats :=
  match t.connection with
  | none => t.session.stats
  | some c => { t.session.stats with bytesSent := c.bytesSent, bytesReceived := c.bytesReceived }

/-! ## The transport as a machine -/

/-- A call on the transport and what it meets. -/
inductive Call where
  | connect (endpoint : Endpoint) (env : OpenEnv)
  | setReconnectPolicy (policy : ReconnectPolicy)
  | ensureTopic (topic : Topic) (options : TopicOptions) (env : DeclareEnv)
  | topicDepth (topic : Topic) (env : Wait)
  | purgeTopic (topic : Topic) (env : Wait)
  | send (topic : Topic) (payload : Bytes) (options : SendOptions) (out : Outbound)
  | subscribe (topic : Topic) (callable : Bool) (env : ConsumeEnv)
  | settle (tag : Nat) (disposition : Disposition) (out : Outbound)
  | pump (env : PumpEnv)
  | close (env : CloseEnv)
  | destroy (env : CloseEnv)
  deriving DecidableEq, Repr

/-- The destructor, after which there are no further calls. -/
def Call.destroys : Call → Bool
  | .destroy _ => true
  | _ => false

/-- The method a call is of; its result is not looked at. -/
def Call.method : Call → Method Unit
  | .connect endpoint env => AmqpCppTransport.connect endpoint env
  | .setReconnectPolicy policy => AmqpCppTransport.setReconnectPolicy policy
  | .ensureTopic topic options env => AmqpCppTransport.ensureTopic topic options env
  | .topicDepth topic env => (fun _ => ()) <$> AmqpCppTransport.topicDepth topic env
  | .purgeTopic topic env => (fun _ => ()) <$> AmqpCppTransport.purgeTopic topic env
  | .send topic payload options out =>
      (fun _ => ()) <$> AmqpCppTransport.send topic payload options out
  | .subscribe topic callable env => AmqpCppTransport.subscribe topic callable env
  | .settle tag disposition out => AmqpCppTransport.settle tag disposition out
  | .pump env => (fun _ => ()) <$> AmqpCppTransport.pump env
  | .close env => AmqpCppTransport.close env
  | .destroy env => AmqpCppTransport.destroy env

end AmqpCppTransport

/-- A process with one transport in it. -/
structure Process where
  transport : AmqpCppTransport := {}
  /-- The transport's destructor has run. -/
  destroyed : Bool := false
  /-- `std::terminate` has been called. -/
  terminated : Bool := false

namespace Process

open AmqpCppTransport

/-- A call can be made: the process runs and the transport exists. -/
def running (p : Process) : Bool := !p.destroyed && !p.terminated

/-- One call.  What it throws is the caller's business; the end of the process is not. -/
def step (p : Process) (call : Call) : Process :=
  if p.running then
    { transport := (call.method p.transport).2
      destroyed := call.destroys
      terminated := decide ((call.method p.transport).1 = .error .terminate) }
  else p

/-- A process that makes calls on one transport, until one of them ends it. -/
def machine : Machine Process Call where
  init := {}
  step := step

end Process

end Motus.Amqp
