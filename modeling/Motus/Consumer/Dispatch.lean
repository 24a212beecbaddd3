import Motus.Consumer.ByteMessage
import Motus.Transport.Capabilities

set_option autoImplicit false

/-!
# Deciding what to do with one delivery (`src/Consumer.cpp`)

`dispatch` decodes a body and routes it to the handler that is configured; the
lambda that `Consumer::start` subscribes with counts the decision and returns it to
the transport.  A handler is a function to the way one call of it ends.
-/

namespace Motus.Consumer

open Motus.Transport

/-- How one call of a handler ended. -/
inductive HandlerEnd where
  | returned (disposition : Disposition)
  /-- it threw `TransientFailure` -/
  | transientFailure (what : String)
  /-- it threw another `std::exception` -/
  | exception (what : String)
  /-- it threw something that is not a `std::exception` -/
  | foreign (what : String)
  deriving DecidableEq, Repr

/-- The handlers a Consumer can drive; `none` is a `std::function` that is empty. -/
structure Handlers where
  /-- returns nothing: what a call that returned carries is not looked at -/
  onMessage : Option (ByteMessage → HandlerEnd) := none
  onDeferred : Option (ByteMessage → Nat → HandlerEnd) := none

/-- What a dispatch decides, and why. -/
structure DispatchResult where
  disposition : Disposition
  error : String
  deriving DecidableEq, Repr

/-- Decode one body, or decide its fate without any handler running. -/
def decode (body : Bytes) : Except DispatchResult ByteMessage :=
  if ByteMessage.maxPayloadBytes < body.length then
    .error ⟨.reject, "message body is " ++ toString body.length ++ " bytes, over the " ++
      toString ByteMessage.maxPayloadBytes ++ " byte limit"⟩
  else
    match ByteMessage.deserialize body with
    | .ok message => .ok message
    | .error e => .error ⟨.reject, e.what⟩

/-- A transient failure gets one more attempt. -/
def classifyTransient (what : String) (redelivered : Bool) : DispatchResult :=
  if redelivered then
    ⟨.reject, "transient failure persisted across a redelivery, treating as permanent: " ++ what⟩
  else ⟨.requeue, what⟩

/-- Decode the envelope once and route to whichever handler is configured; only what is
not a `std::exception` escapes. -/
def dispatch (body : Bytes) (handlers : Handlers) (redelivered : Bool) (deliveryTag : Nat) :
    Except String DispatchResult :=
  match decode body with
  | .error failure => .ok failure
  | .ok message =>
      match handlers.onDeferred with
      | some onDeferred =>
          match onDeferred message deliveryTag with
          | .returned disposition => .ok ⟨disposition, ""⟩
          | .transientFailure what => .ok (classifyTransient what redelivered)
          | .exception what => .ok ⟨.reject, what⟩
          | .foreign what => .error what
      | none =>
          match handlers.onMessage with
          | none => .ok ⟨.reject, "message understood, but no handler is configured"⟩
          | some onMessage =>
              match onMessage message with
              | .returned _ => .ok ⟨.ack, ""⟩
              | .transientFailure what => .ok (classifyTransient what redelivered)
              | .exception what => .ok ⟨.reject, what⟩
              | .foreign what => .error what

/-- Which handlers a Consumer was constructed with. -/
structure Configured where
  onMessage : Bool := false
  onDeferred : Bool := false
  deriving DecidableEq, Repr

/-- The handlers at a call that ends so. -/
def Configured.handlers (configured : Configured) (ending : HandlerEnd) : Handlers where
  onMessage := if configured.onMessage then some fun _ => ending else none
  onDeferred := if configured.onDeferred then some fun _ _ => ending else none

/-- The constructor of `Consumer`. -/
def checkHandlers (caps : Capabilities) (configured : Configured) : Except Exn Unit :=
  if configured.onMessage = false ∧ configured.onDeferred = false then
    .error (.invalidArgument "Consumer requires at least one callable handler")
  else if caps.manualAcknowledgement = false then
    .error (.runtimeError ("transport backend '" ++ caps.name ++
      "' does not support manual acknowledgement, so a message would be acknowledged " ++
      "before it is processed. Poison-message rejection and redelivery after a worker " ++
      "crash both depend on it."))
  else if configured.onDeferred = true ∧ caps.deferredAcknowledgement = false then
    .error (.runtimeError ("transport backend '" ++ caps.name ++
      "' does not support deferred acknowledgement (Capabilities::deferredAcknowledgement " ++
      "is false), but a deferred handler was configured."))
  else .ok ()

/-- The disposition that the lambda of `start` arrives at. -/
def decision (caps : Capabilities) (handlers : Handlers) (delivery : Delivery) :
    Except String Disposition :=
  match dispatch delivery.body handlers delivery.redelivered delivery.tag with
  | .error what => .error what
  | .ok result =>
      -- a backend that cannot requeue rejects
      if result.disposition = .requeue ∧ caps.requeue = false then .ok .reject
      else .ok result.disposition

/-! ## What comes out -/

section Decision

variable {handlers : Handlers} {delivery : Delivery}

/-- A body that does not decode is rejected, whatever the handlers are. -/
theorem decision_of_decode_error {failure : DispatchResult} (caps : Capabilities)
    (h : decode delivery.body = .error failure) :
    decision caps handlers delivery = .ok .reject := by
  have hreject : failure.disposition = .reject := by
    unfold decode at h
    split at h
    · rw [← Except.error.inj h]
    · split at h
      · exact absurd h (by simp)
      · rw [← Except.error.inj h]
  simp only [decision, dispatch, h, hreject]
  rfl

/-- The bodies that a handler is called with are the envelopes that decode. -/
theorem decode_eq_ok_iff {body : Bytes} {message : ByteMessage} :
    decode body = .ok message ↔ ByteMessage.deserialize body = .ok message := by
  unfold decode
  split
  · next hsize =>
      refine ⟨fun h => absurd h (by simp), fun h => ?_⟩
      rw [ByteMessage.deserialize, if_pos hsize] at h
      exact absurd h (by simp)
  · cases ByteMessage.deserialize body with
    | ok m => exact ⟨fun h => by rw [Except.ok.inj h], fun h => by rw [Except.ok.inj h]⟩
    | error e => exact ⟨fun h => absurd h (by simp), fun h => absurd h (by simp)⟩

/-- With an `onMessage` handler alone, on a backend that can requeue: a call that
returns is acknowledged, a transient failure is requeued once and anything else is
rejected. -/
theorem decision_onMessage {caps : Capabilities} (hrequeue : caps.requeue = true)
    {message : ByteMessage} (h : decode delivery.body = .ok message) (ending : HandlerEnd) :
    decision caps (Configured.handlers ⟨true, false⟩ ending) delivery =
      match ending with
      | .returned _ => .ok .ack
      | .transientFailure _ => .ok (if delivery.redelivered then .reject else .requeue)
      | .exception _ => .ok .reject
      | .foreign what => .error what := by
  simp only [decision, dispatch, h, Configured.handlers, if_true, hrequeue]
  cases ending with
  | returned d => simp
  | exception what => simp
  | foreign what => simp
  | transientFailure what => cases hredelivered : delivery.redelivered <;> simp [classifyTransient]

end Decision

end Motus.Consumer
