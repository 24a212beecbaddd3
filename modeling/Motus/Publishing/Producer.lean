import Motus.Foundation.Exec
import Motus.Transport.Capabilities

set_option autoImplicit false

/-!
# The Producer (`include/motus/Producer.hpp`, `include/motus/MessagePublisher.hpp`)

A message type is any type with a `serialize`, and a transport is whatever has a
`send`; both are parameters.  A Producer and the state of its transport make up the
state of a method.  What is only logged is left out.

What leaves a publish is told apart by where it comes from, the message or the transport;
either way the count of the Producer stays what it was.
-/

namespace Motus.Publishing

open Motus.Foundation Motus.Transport

/-- What leaves a publish: what `serialize` throws, or what the transport throws. -/
inductive Failure (ε : Type) where
  | serializing (e : ε)
  | sending (e : Exn)
  deriving DecidableEq, Repr

/-- `ITransport::send` of a transport with this state. -/
abbrev Send (σ : Type) : Type := Topic → Bytes → SendOptions → Exec Exn σ Bool

/-- A `Producer`: how it sends, and how many of its messages were taken. -/
structure Producer where
  options : SendOptions := {}
  published : Nat := 0
  deriving DecidableEq, Repr

section

variable {ε μ σ : Type} (serialize : μ → Except ε Bytes) (send : Send σ)

/-- `MessagePublisher::publish`. -/
def MessagePublisher.publish (topic : Topic) (message : μ) (options : SendOptions) :
    Exec (Failure ε) σ Bool := fun s =>
  match serialize message with
  | .error e => (.error (.serializing e), s)
  | .ok payload =>
      let (result, s') := send topic payload options s
      (result.mapError .sending, s')

namespace Producer

/-- The constructor checks the requirements against the declared capabilities. -/
def construct (caps : Capabilities) (options : SendOptions) : Except Exn Producer :=
  if options.durable && !caps.durableDelivery then
    .error (.runtimeError ("transport backend '" ++ caps.name ++
      "' cannot deliver durable messages, but this producer requires them. " ++
      "Messages would be lost on any middleware restart. Either select a backend " ++
      "that supports durability, or construct the Producer with SendOptions\x7bfalse\x7d " ++
      "to state explicitly that loss is acceptable."))
  else if options.confirm && !caps.publisherConfirms then
    .error (.runtimeError ("transport backend '" ++ caps.name ++
      "' does not support publisher confirms, but this producer requires them. " ++
      "A send would report success once the frame left the socket, which is not the " ++
      "same as the middleware having stored it."))
  else .ok { options := options }

/-- The one place a publish is counted. -/
def publishWith (topic : Topic) (message : μ) (options : SendOptions) :
    Exec (Failure ε) (σ × Producer) Bool := do
  let accepted ← Exec.zoom Prod.fst (fun t s => (t, s.2))
    (MessagePublisher.publish serialize send topic message options)
  if accepted then do
    modify fun s => (s.1, { s.2 with published := s.2.published + 1 })
    pure true
  else pure false

/-- `publish`: the message is serialized and sent with the options of the Producer. -/
def publish (topic : Topic) (message : μ) : Exec (Failure ε) (σ × Producer) Bool := do
  let s ← get
  publishWith serialize send topic message s.2.options

/-- A Producer that was constructed has published nothing, and requires nothing that the
backend does not declare. -/
theorem construct_ok {caps : Capabilities} {options : SendOptions} {p : Producer}
    (h : construct caps options = .ok p) :
    p = { options := options } ∧ (options.durable = true → caps.durableDelivery = true) ∧
      (options.confirm = true → caps.publisherConfirms = true) := by
  unfold construct at h
  split at h
  · exact absurd h (by simp)
  · next hdurable =>
      split at h
      · exact absurd h (by simp)
      · next hconfirm =>
          exact ⟨(Except.ok.inj h).symm, by simpa using hdurable, by simpa using hconfirm⟩

/-- The Producer once its transport has answered a send. -/
def told (p : Producer) : Except Exn Bool → Producer
  | .ok true => { p with published := p.published + 1 }
  | _ => p

@[simp] theorem options_told (p : Producer) (answer : Except Exn Bool) :
    (p.told answer).options = p.options := by
  rcases answer with e | _ | _ <;> rfl

theorem published_told_ok (p : Producer) (accepted : Bool) :
    (p.told (.ok accepted)).published = p.published + if accepted = true then 1 else 0 := by
  cases accepted <;> rfl

/-- A message that cannot be serialized is not sent. -/
theorem publish_unserialized {topic : Topic} {message : μ} {e : ε}
    (h : serialize message = .error e) (t : σ) (p : Producer) :
    publish serialize send topic message (t, p) = (.error (.serializing e), (t, p)) := by
  simp only [publish, publishWith, Exec.bind_apply, Exec.get_apply, Exec.zoom_apply,
    MessagePublisher.publish, h]

/-- A message that can be is sent once, and counted if the transport accepts it. -/
theorem publish_serialized {topic : Topic} {message : μ} {payload : Bytes}
    (h : serialize message = .ok payload) (t : σ) (p : Producer) :
    publish serialize send topic message (t, p) =
      ((send topic payload p.options t).1.mapError .sending,
        ((send topic payload p.options t).2, p.told (send topic payload p.options t).1)) := by
  simp only [publish, publishWith, Exec.bind_apply, Exec.get_apply, Exec.zoom_apply,
    MessagePublisher.publish, h]
  rcases send topic payload p.options t with ⟨r, t'⟩
  rcases r with e | _ | _ <;> rfl

end Producer

end

end Motus.Publishing
