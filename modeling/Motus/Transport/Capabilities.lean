import Motus.Transport.Seam

set_option autoImplicit false

/-!
# What a backend can do (`include/motus/transport/ITransport.hpp`)

The capabilities that the layers above the seam look at, and the check of a
declaration against them.

A declaration that needs what the backend has not is refused with a text that names it,
and so is one on which other declarers would not agree.
-/

namespace Motus.Transport

/-- The fields of `Capabilities` that some caller above the seam reads. -/
structure Capabilities where
  name : String := "unknown"
  durableDelivery : Bool := false
  publisherConfirms : Bool := false
  manualAcknowledgement : Bool := false
  deadLetter : Bool := false
  routingGroups : Bool := false
  requeue : Bool := false
  deferredAcknowledgement : Bool := false
  boundedQueue : Bool := false
  deriving DecidableEq, Repr

/-- `InMemoryTransport::capabilities()`. -/
def inMemoryCapabilities : Capabilities where
  name := "inmemory"
  publisherConfirms := true
  manualAcknowledgement := true
  deadLetter := true
  routingGroups := true
  requeue := true
  deferredAcknowledgement := true
  boundedQueue := true

/-- The first property of a declaration that differs from the default. -/
def offender (options : TopicOptions) : Option String :=
  let defaults : TopicOptions := {}
  if options.durable ≠ defaults.durable then some "durable"
  else if options.shared ≠ defaults.shared then some "shared"
  else if options.deleteWhenUnused ≠ defaults.deleteWhenUnused then some "deleteWhenUnused"
  else if options.deadLetter ≠ defaults.deadLetter then some "deadLetter"
  else if options.maxLength ≠ defaults.maxLength then some "maxLength"
  else if options.overflow ≠ defaults.overflow then some "overflow"
  else none

/-- Refuse a declaration that the backend cannot honour, or that another declarer
would not agree with. -/
def checkTopicOptions (caps : Capabilities) (options : TopicOptions) (allowAsymmetric : Bool) :
    Except Exn Unit :=
  if options.deadLetter = true ∧ caps.deadLetter = false then
    .error (.runtimeError ("backend '" ++ caps.name ++
      "' cannot preserve rejected messages (Capabilities::deadLetter is false), but " ++
      "dead-lettering was requested. Refused at declaration rather than silently " ++
      "discarding the forensic payload."))
  else if options.group ≠ "" ∧ caps.routingGroups = false then
    .error (.runtimeError ("backend '" ++ caps.name ++
      "' cannot group destinations (Capabilities::routingGroups is false), but the " ++
      "routing group '" ++ options.group ++
      "' was requested. Refused at declaration rather than ignored: a silently dropped " ++
      "group publishes to the default destination and looks exactly like success."))
  else if options.maxLength > 0 ∧ caps.boundedQueue = false then
    .error (.runtimeError ("backend '" ++ caps.name ++
      "' cannot bound a destination's depth (Capabilities::boundedQueue is false), but " ++
      "maxLength=" ++ toString options.maxLength ++
      " was requested. Refused at declaration rather than ignored: a silently unbounded " ++
      "'bounded' destination is exactly the failure this struct exists to make loud."))
  else if allowAsymmetric then .ok ()
  else
    match offender options with
    | none => .ok ()
    | some property =>
        .error (.runtimeError ("topic property '" ++ property ++
          "' differs from the default. Producer and Consumer declare the same destination, so " ++
          "whichever started second would be refused with PRECONDITION_FAILED. Pass " ++
          "allowAsymmetric if that is intended, or declare through ITransport directly."))

end Motus.Transport
