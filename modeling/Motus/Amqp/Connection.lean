import Motus.Transport.Seam

set_option autoImplicit false

/-!
# The blocking AMQP connection (`include/motus/AmqpConnection.hpp`)

`AmqpConnection` owns a socket and the protocol object of AMQP-CPP.  The library
is not part of the repository: what it does is the environment's choice.  It
hands bytes to `onData`, reports through `onReady`, `onError` and `onClosed`, and
`parse` consumes a prefix of the bytes it is given and tells how many.

A wait is a list of turns: what each `pumpOnce` meets until the deadline.  When
the list is used up the deadline has passed.  The callbacks of the library that
belong to a channel are the business of the connection's owner, whose own state
stands beside the connection in a `Wire`.
-/

namespace Motus.Amqp

open Motus.Foundation Motus.Transport

/-! ## The socket -/

/-- The error codes the source tells apart. -/
inductive ErrorKind where
  | eof
  | operationAborted
  | connectionReset
  | connectionAborted
  | brokenPipe
  | notConnected
  | other
  deriving DecidableEq, Repr

/-- A `boost::system::error_code` that is set. -/
structure ErrorCode where
  kind : ErrorKind
  message : String := ""
  deriving DecidableEq, Repr

/-- What a read of the socket completed with. -/
inductive ReadResult where
  | data (bytes : Bytes)
  | failed (ec : ErrorCode)
  deriving DecidableEq, Repr

/-- Bytes the library hands to `onData`, and the error their write ends with. -/
structure Outbound where
  size : Nat := 0
  failure : Option ErrorCode := none
  deriving DecidableEq, Repr

/-- Where the socket is in its life. -/
inductive Socket where
  | unopened
  /-- opened by a connect that failed -/
  | unconnected
  | connected
  | shut
  deriving DecidableEq, Repr

namespace Socket

/-- What every operation on a socket without a peer reports. -/
def failure : Socket → Option ErrorCode
  | .connected => none
  | .unconnected => some ⟨.notConnected, "Transport endpoint is not connected"⟩
  | .unopened | .shut => some ⟨.other, "Bad file descriptor"⟩

/-- A read: the environment decides only while there is a peer. -/
def read (socket : Socket) (result : ReadResult) : ReadResult :=
  match socket.failure with
  | some ec => .failed ec
  | none => result

/-- A write, likewise. -/
def write (socket : Socket) (out : Outbound) : Option ErrorCode :=
  match socket.failure with
  | some ec => some ec
  | none => out.failure

end Socket

/-! ## The connection -/

/-- The protocol object `_connection`: not there yet, or there and usable or not.
A usable one sends a close frame when it is closed or destroyed. -/
inductive Library where
  | absent
  | usable
  | unusable
  deriving DecidableEq, Repr

/-- What has happened to a connection, for the statements about it. -/
inductive Happening where
  | handshake
  | protocolError
  | closedByBroker
  | readFailed
  | writeFailed
  | closeReturned
  deriving DecidableEq, Repr

/-- `AmqpConnection`: its fields, of the protocol object and the socket only what state they
are in. -/
structure AmqpConnection where
  host : String := ""
  port : Nat := 5672
  user : String := "guest"
  password : String := "guest"
  vhost : String := "/"
  socket : Socket := .unopened
  inBuffer : Bytes := []
  library : Library := .absent
  ready : Bool := false
  closed : Bool := false
  error : String := ""
  bytesSent : Nat := 0
  bytesReceived : Nat := 0
  /-- Auxiliary: every byte the socket delivered. -/
  delivered : Bytes := []
  /-- Auxiliary: the runs of bytes `parse` consumed, oldest first. -/
  consumed : List Bytes := []
  /-- Auxiliary: what has happened, newest first. -/
  journal : List Happening := []
  deriving DecidableEq, Repr

namespace AmqpConnection

/-- The constructor, with the port that a transport fills in. -/
def ofEndpoint (endpoint : Endpoint) : AmqpConnection where
  host := endpoint.host
  port := if endpoint.port = 0 then 5672 else endpoint.port
  user := endpoint.user
  password := endpoint.password
  vhost := endpoint.realm

/-- `ready()`: the handshake completed and nothing has closed the connection since. -/
def isReady (c : AmqpConnection) : Bool := c.ready && !c.closed

/-- `closed()`. -/
def isClosed (c : AmqpConnection) : Bool := c.closed

/-- Auxiliary: an entry in the journal of the connection. -/
def note (happening : Happening) (c : AmqpConnection) : AmqpConnection :=
  { c with journal := happening :: c.journal }

/-! ### The callbacks of the library -/

/-- The library has bytes for the peer.  A write that fails marks the connection closed,
and throws if it was not closed before. -/
def onData (out : Outbound) : Exec Exn AmqpConnection Unit := do
  modify fun c => { c with bytesSent := c.bytesSent + out.size }
  let c ← get
  match c.socket.write out with
  | none => pure ()
  | some ec => do
      let alreadyDown := c.closed
      set (note .writeFailed { c with closed := true })
      if alreadyDown then pure ()
      else throw (.runtimeError ("socket write failed: " ++ ec.message))

/-- The handshake is over: `_ready` is set, and never cleared. -/
def onReady : Exec Exn AmqpConnection Unit :=
  modify fun c => note .handshake { c with ready := true }

/-- After a protocol error the library no longer sends anything. -/
def onError (message : Option String) : Exec Exn AmqpConnection Unit :=
  modify fun c => note .protocolError
    { c with error := message.getD "unknown protocol error", library := .unusable }

/-- The broker has closed the connection. -/
def onClosed : Exec Exn AmqpConnection Unit :=
  modify fun c => note .closedByBroker { c with closed := true, library := .unusable }

/-! ### The pieces of `pumpOnce` and `close` -/

/-- A peer that goes away is an ordinary end of the connection. -/
def endsConnection : ErrorKind → Bool
  | .eof | .operationAborted | .connectionReset | .connectionAborted | .brokenPipe
  | .notConnected => true
  | .other => false

/-- `pumpOnce` from the completion of its read to the call of `parse`; `false`
when it returns before that call. -/
def readCompleted (result : ReadResult) : Exec Exn AmqpConnection Bool := do
  let c ← get
  match c.socket.read result with
  | .failed ec => do
      set (note .readFailed { c with closed := true })
      if endsConnection ec.kind then pure false
      else throw (.runtimeError ("socket read failed: " ++ ec.message))
  | .data bytes => do
      set { c with bytesReceived := c.bytesReceived + bytes.length
                   inBuffer := c.inBuffer ++ bytes
                   delivered := c.delivered ++ bytes }
      pure true

/-- `pumpOnce` after `parse` has returned what it consumed. -/
def parsed (consumed : Nat) : Exec Exn AmqpConnection Unit :=
  modify fun c => { c with
    inBuffer := c.inBuffer.drop consumed
    consumed := c.consumed ++ [c.inBuffer.take consumed] }

/-- The end of a read that was still under way at the deadline: `cancel` and a
drain, whose result stays in the local variables of `pumpOnce`. -/
def readExpired (drained : ReadResult) : Exec Exn AmqpConnection Unit :=
  modify fun c =>
    match c.socket.read drained with
    | .data bytes => { c with delivered := c.delivered ++ bytes }
    | .failed ec => if ec.kind = .operationAborted then c else note .readFailed c

/-- `_connection->close()`: a usable connection sends one close frame. -/
def closeLibrary (out : Outbound) : Exec Exn AmqpConnection Unit := do
  let c ← get
  if c.library = .usable then do
    set { c with library := .unusable }
    onData out
  else pure ()

/-- The tail of `close`, which shuts an open socket, and its return. -/
def closeReturned : Exec Exn AmqpConnection Unit :=
  modify fun c => note .closeReturned
    { c with socket := if c.socket = .unopened then .unopened else .shut }

/-- How far the TCP part of `connect` comes. -/
inductive Reach where
  | unresolved (ec : ErrorCode)
  | refused (ec : ErrorCode)
  | connected
  deriving DecidableEq, Repr

/-- `connect` up to the point where the socket is connected. -/
def reachPeer (reach : Reach) : Exec Exn AmqpConnection Unit := do
  let c ← get
  match reach with
  | .unresolved ec =>
      throw (.runtimeError ("cannot resolve '" ++ c.host ++ "': " ++ ec.message ++
        " (pass an IP literal such as 127.0.0.1 instead -- restrictive DNS policy" ++
        " can break even localhost lookups)"))
  | .refused ec => do
      set { c with socket := Socket.unconnected }
      throw (.runtimeError ("cannot reach broker at " ++ c.host ++ ":" ++ toString c.port ++
        " -- " ++ ec.message ++ " (is rabbitmq-server.bat running?)"))
  | .connected => set { c with socket := Socket.connected }

/-- The construction of the protocol object, which sends the protocol header. -/
def constructLibrary (header : Outbound) : Exec Exn AmqpConnection Unit := do
  onData header
  modify fun c => { c with library := .usable }

end AmqpConnection

/-! ## Serving the socket -/

/-- A connection together with the state its owner keeps beside it. -/
structure Wire (τ : Type) where
  connection : AmqpConnection
  owner : τ

/-- A method that serves a connection. -/
abbrev Serving (τ α : Type) : Type := Exec Exn (Wire τ) α

/-- What the library calls from inside `parse`; `κ` is what concerns a channel. -/
inductive Callback (κ : Type) where
  | onData (out : Outbound)
  | onReady
  | onError (message : Option String)
  | onClosed
  | channel (event : κ)
  deriving DecidableEq, Repr

/-- One call of `parse`: the callbacks it makes and how many bytes it consumes. -/
structure Parse (κ : Type) where
  callbacks : List (Callback κ) := []
  consumed : Nat := 0
  deriving DecidableEq, Repr

/-- What one `pumpOnce` meets. -/
inductive Turn (κ : Type) where
  | completed (result : ReadResult) (parse : Parse κ)
  /-- the deadline came first; what the cancelled read was drained with -/
  | expired (drained : ReadResult)
  deriving DecidableEq, Repr

namespace AmqpConnection

variable {κ τ : Type}

/-- A call on the connection alone. -/
def onWire {α : Type} (x : Exec Exn AmqpConnection α) : Serving τ α :=
  Exec.zoom Wire.connection (fun c w => { w with connection := c }) x

/-- One callback, with the owner's reaction to what concerns its channel. -/
def callback (react : κ → Serving τ Unit) : Callback κ → Serving τ Unit
  | .onData out => onWire (onData out)
  | .onReady => onWire onReady
  | .onError message => onWire (onError message)
  | .onClosed => onWire onClosed
  | .channel event => react event

/-- The callbacks of one `parse`; a throw leaves `parse`. -/
def callbacks (react : κ → Serving τ Unit) : List (Callback κ) → Serving τ Unit
  | [] => pure ()
  | first :: rest => do
      callback react first
      callbacks react rest

/-- One read and parse cycle. -/
def pumpOnce (react : κ → Serving τ Unit) : Turn κ → Serving τ Bool
  | .expired drained => do
      onWire (readExpired drained)
      pure false
  | .completed result parse => do
      let arrived ← onWire (readCompleted result)
      if arrived then do
        callbacks react parse.callbacks
        onWire (parsed parse.consumed)
        pure true
      else pure false

/-- Service the socket until `predicate` is true or the deadline passes. -/
def pumpUntil (react : κ → Serving τ Unit) (predicate : Wire τ → Bool) :
    List (Turn κ) → Serving τ Bool
  | [] => do
      let w ← get
      pure (predicate w)
  | turn :: rest => do
      let w ← get
      if predicate w then pure true
      else do
        let served ← pumpOnce react turn
        if served then pumpUntil react predicate rest
        else do
          let w ← get
          pure (predicate w)

/-- Graceful close, then the socket. -/
def close (react : κ → Serving τ Unit) (out : Outbound) (turns : List (Turn κ)) :
    Serving τ Unit := do
  let w ← get
  if w.connection.library ≠ .absent ∧ w.connection.closed = false then do
    onWire (closeLibrary out)
    let _ ← pumpUntil react (·.connection.closed) turns
    onWire closeReturned
  else onWire closeReturned

/-- What one `connect` meets. -/
structure ConnectEnv (κ : Type) where
  reach : Reach := .connected
  header : Outbound := {}
  handshake : List (Turn κ) := []
  deriving DecidableEq, Repr

/-- The handshake is over, one way or another. -/
def handshakeOver (w : Wire τ) : Bool :=
  w.connection.ready || w.connection.error != "" || w.connection.closed

/-- Open the socket and complete the AMQP handshake. -/
def connect (react : κ → Serving τ Unit) (env : ConnectEnv κ) : Serving τ Unit := do
  onWire (reachPeer env.reach)
  onWire (constructLibrary env.header)
  let settled ← pumpUntil react handshakeOver env.handshake
  let w ← get
  let c := w.connection
  if c.error ≠ "" then
    throw (.runtimeError ("AMQP handshake rejected: " ++ c.error ++
      " (check credentials and vhost '" ++ c.vhost ++ "')"))
  else if c.closed then throw (.runtimeError "broker closed the connection during handshake")
  else if settled = false ∨ c.ready = false then
    throw (.runtimeError ("timed out waiting for AMQP handshake from " ++ c.host))
  else pure ()

/-- Whether a throw that reaches a destructor ends the process. -/
def fromDestructor {σ α : Type} (x : Exec Exn σ α) : Exec Exn σ α :=
  tryCatch x fun _ => throw .terminate

/-- `catch (...)`: everything but the end of the process. -/
def swallow {σ : Type} (x : Exec Exn σ Unit) : Exec Exn σ Unit :=
  tryCatch x fun e => if e = .terminate then throw .terminate else pure ()

/-- What the destruction of a connection meets: its own `close`, and the write of
the frame a still usable protocol object sends as it dies. -/
structure TeardownEnv (κ : Type) where
  close : Outbound := {}
  turns : List (Turn κ) := []
  last : Outbound := {}
  deriving DecidableEq, Repr

/-- `~AmqpConnection`, then `~Connection` as its members are destroyed. -/
def destroy (react : κ → Serving τ Unit) (env : TeardownEnv κ) : Serving τ Unit := do
  swallow (close react env.close env.turns)
  fromDestructor (onWire (closeLibrary env.last))

end AmqpConnection

end Motus.Amqp
