import Motus.Amqp.CppTransport
import Motus.Amqp.QueueArguments
import Motus.Amqp.SimpleTransport
import Motus.InMemory.Groups

set_option autoImplicit false

/-!
# When two declarations of one topic are the same

The in-memory broker compares a declaration with the options it stored, field by
field.  The AMQP transports encode the options into a request and leave the
comparison to the broker.  `Encoded` is what two pairs of options have in common
when their requests are the same.
-/

namespace Motus.Amqp

open Motus.Transport

/-- The request `declare` makes for a queue. -/
def queueRequest (topic : Topic) (options : TopicOptions) : Request :=
  .declareQueue topic (queueFlags options) (queueArguments topic options)

/-- It is what `declareDestination` asks for between its group and its binding. -/
theorem declareDestination_asks (topic : Topic) (options : TopicOptions)
    (env : Session.DestinationEnv) :
    ∃ refused timedOut, Session.declareDestination topic options env = (do
      Session.declareGroup options env.exchange
      let waiting ← Session.ask (queueRequest topic options) env.queue refused timedOut
      Session.bindGroup topic options env.bind
      pure waiting) := ⟨_, _, rfl⟩

namespace SimpleAmqpTransport

/-- A call of `DeclareQueue`. -/
structure QueueDeclaration where
  topic : Topic
  passive : Bool
  durable : Bool
  exclusive : Bool
  autoDelete : Bool
  arguments : List (String × Argument)
  deriving DecidableEq, Repr

/-- The arguments table, as this transport builds it. -/
def queueArguments (topic : Topic) (options : TopicOptions) : List (String × Argument) :=
  (if options.deadLetter then
    [("x-dead-letter-exchange", .text kDeadLetterExchange),
      ("x-dead-letter-routing-key", .text topic)] else []) ++
  (if options.maxLength > 0 then
    [("x-max-length", .int32 (Int.bmod options.maxLength (2 ^ 32))),
      ("x-overflow", .text (overflowPolicyName options.overflow))] else [])

/-- The call of `DeclareQueue` that `ensureTopic` makes for a topic. -/
def queueDeclaration (topic : Topic) (options : TopicOptions) : QueueDeclaration where
  topic := topic
  passive := false
  durable := options.durable
  exclusive := !options.shared
  autoDelete := options.deleteWhenUnused
  arguments := queueArguments topic options

end SimpleAmqpTransport

/-! ## What a request says -/

/-- The value of an argument of a queue. -/
def argument (name : String) (arguments : List (String × Argument)) : Option Argument :=
  arguments.lookup name

section Arguments

variable (topic : Topic) (options : TopicOptions)

theorem argument_maxLength :
    argument "x-max-length" (queueArguments topic options) =
      if 0 < options.maxLength then some (.int32 (Int.bmod options.maxLength (2 ^ 32)))
      else none := by
  unfold argument queueArguments
  cases options.deadLetter <;> by_cases hbounded : 0 < options.maxLength <;>
    simp [hbounded, List.lookup]

end Arguments

/-- What the encoding of two pairs of options compares. -/
structure Encoded (o₁ o₂ : TopicOptions) : Prop where
  durable : o₁.durable = o₂.durable
  shared : o₁.shared = o₂.shared
  deleteWhenUnused : o₁.deleteWhenUnused = o₂.deleteWhenUnused
  deadLetter : o₁.deadLetter = o₂.deadLetter
  maxLength : o₁.maxLength = o₂.maxLength
  /-- the policy is sent with a limit only -/
  overflow : 0 < o₁.maxLength → o₁.overflow = o₂.overflow

section Encoded

variable {o₁ o₂ : TopicOptions}

theorem queueRequest_eq_iff (topic : Topic) (h₁ : o₁.maxLength < 2 ^ 31)
    (h₂ : o₂.maxLength < 2 ^ 31) :
    queueRequest topic o₁ = queueRequest topic o₂ ↔ Encoded o₁ o₂ := by
  rw [queueRequest, queueRequest, Request.declareQueue.injEq, queueFlags_eq_iff,
    queueArguments_eq_iff, lengthLimit_eq_iff h₁ h₂]
  constructor
  · rintro ⟨-, ⟨hdurable, hshared, hdelete⟩, hdead, hlength, hpolicy⟩
    exact ⟨hdurable, hshared, hdelete, hdead, hlength, hpolicy⟩
  · intro h
    exact ⟨rfl, ⟨h.durable, h.shared, h.deleteWhenUnused⟩, h.deadLetter, h.maxLength, h.overflow⟩

theorem SimpleAmqpTransport.queueDeclaration_eq_iff (topic : Topic) (h₁ : o₁.maxLength < 2 ^ 31)
    (h₂ : o₂.maxLength < 2 ^ 31) :
    queueDeclaration topic o₁ = queueDeclaration topic o₂ ↔ Encoded o₁ o₂ := by
  have hflag : (!o₁.shared) = (!o₂.shared) ↔ o₁.shared = o₂.shared := by
    cases o₁.shared <;> cases o₂.shared <;> decide
  rw [queueDeclaration, queueDeclaration, QueueDeclaration.mk.injEq, hflag,
    show queueArguments topic o₁ = queueArguments topic o₂ ↔ _ from
      queueArguments_eq_iff topic o₁ o₂, lengthLimit_eq_iff h₁ h₂]
  constructor
  · rintro ⟨-, -, hdurable, hshared, hdelete, hdead, hlength, hpolicy⟩
    exact ⟨hdurable, hshared, hdelete, hdead, hlength, hpolicy⟩
  · intro h
    exact ⟨rfl, rfl, h.durable, h.shared, h.deleteWhenUnused, h.deadLetter, h.maxLength, h.overflow⟩

end Encoded

end Motus.Amqp

namespace Motus.Backends

open Motus.Foundation Motus.Transport Motus.Amqp Motus.InMemory
open Broker (GroupAgrees ensureTopic_eq_ok_iff)

/-- The backends agree about a topic that exists with `o₁` and is declared with `o₂`:
the in-memory broker accepts exactly what AMQP cannot tell apart, and a limit
arrives at the broker as it was asked for. -/
structure Agree (b : Broker) (topic : Topic) (o₁ o₂ : TopicOptions) : Prop where
  cpp : (Broker.ensureTopic topic o₂ b).1 = .ok () ↔ queueRequest topic o₁ = queueRequest topic o₂
  simple : (Broker.ensureTopic topic o₂ b).1 = .ok () ↔
    SimpleAmqpTransport.queueDeclaration topic o₁ = SimpleAmqpTransport.queueDeclaration topic o₂
  carried : ∀ options, options = o₁ ∨ options = o₂ → 0 < options.maxLength →
    argument "x-max-length" (queueArguments topic options) = some (.int32 options.maxLength) ∧
      argument "x-max-length" (SimpleAmqpTransport.queueArguments topic options) =
        some (.int32 options.maxLength)

/-- The limits fit a signed 32-bit number, and two declarations that are encoded
alike do not differ in the policy of a queue without a limit or in the routing kind
of a group that exists. -/
structure Comparable (b : Broker) (o₁ o₂ : TopicOptions) : Prop where
  first : o₁.maxLength < 2 ^ 31
  second : o₂.maxLength < 2 ^ 31
  encoded : Encoded o₁ o₂ → o₁.overflow = o₂.overflow ∧ GroupAgrees b o₂

theorem agrees_iff (o₁ o₂ : TopicOptions) :
    Broker.agrees o₁ o₂ = true ↔ Encoded o₁ o₂ ∧ o₁.overflow = o₂.overflow := by
  simp only [Broker.agrees, Bool.and_eq_true, beq_iff_eq]
  constructor
  · rintro ⟨⟨⟨⟨⟨hdurable, hshared⟩, hdelete⟩, hdead⟩, hlength⟩, hpolicy⟩
    exact ⟨⟨hdurable, hshared, hdelete, hdead, hlength, fun _ => hpolicy⟩, hpolicy⟩
  · rintro ⟨h, hpolicy⟩
    exact ⟨⟨⟨⟨⟨h.durable, h.shared⟩, h.deleteWhenUnused⟩, h.deadLetter⟩, h.maxLength⟩, hpolicy⟩

theorem agree_of_comparable {b : Broker} {topic : Topic} {o₁ o₂ : TopicOptions}
    (haccept : (Broker.ensureTopic topic o₂ b).1 = .ok () ↔
      GroupAgrees b o₂ ∧ Encoded o₁ o₂ ∧ o₁.overflow = o₂.overflow)
    (h : Comparable b o₁ o₂) : Agree b topic o₁ o₂ := by
  have hencoded : (Broker.ensureTopic topic o₂ b).1 = .ok () ↔ Encoded o₁ o₂ := by
    rw [haccept]
    exact ⟨fun haccepted => haccepted.2.1,
      fun hsame => ⟨(h.encoded hsame).2, hsame, (h.encoded hsame).1⟩⟩
  refine ⟨?_, ?_, fun options hoptions hbounded => ?_⟩
  · rw [hencoded, queueRequest_eq_iff topic h.first h.second]
  · rw [hencoded, SimpleAmqpTransport.queueDeclaration_eq_iff topic h.first h.second]
  · have hfits : options.maxLength < 2 ^ 31 := by
      rcases hoptions with rfl | rfl
      · exact h.first
      · exact h.second
    have hcarried := argument_maxLength topic options
    rw [if_pos hbounded, (bmod_eq_self_iff _).mpr hfits] at hcarried
    exact ⟨hcarried, hcarried⟩

/-- For every state of the in-memory broker, every topic in it and all options: the
backends agree about a redeclaration exactly when the options are comparable. -/
theorem agree_iff_comparable {b : Broker} {topic : Topic} {state : TopicState}
    (hfind : b.find topic = some state) (options : TopicOptions) :
    Agree b topic state.options options ↔ Comparable b state.options options := by
  have haccept := ensureTopic_eq_ok_iff hfind options
  rw [agrees_iff] at haccept
  refine ⟨fun h => ?_, agree_of_comparable haccept⟩
  have hfits : ∀ o, o = state.options ∨ o = options → o.maxLength < 2 ^ 31 := by
    intro o ho
    by_cases hbounded : 0 < o.maxLength
    · have hcarried := (h.carried o ho hbounded).1
      rw [argument_maxLength, if_pos hbounded] at hcarried
      exact (bmod_eq_self_iff _).mp (by simpa using hcarried)
    · omega
  refine ⟨hfits _ (.inl rfl), hfits _ (.inr rfl), fun hencoded => ?_⟩
  have haccepted := h.cpp.mpr
    ((queueRequest_eq_iff topic (hfits _ (.inl rfl)) (hfits _ (.inr rfl))).mpr hencoded)
  exact ⟨(haccept.mp haccepted).2.2, (haccept.mp haccepted).1⟩

/-- A topic without a limit. -/
def unlimited : Broker := (Broker.ensureTopic "jobs" {} {}).2

/-- AMQP cannot tell its overflow policy, the in-memory broker refuses another one;
and a limit of 2³¹ arrives as a negative number. -/
theorem unlimited_differs :
    ((Broker.ensureTopic "jobs" { overflow := .rejectPublish } unlimited).1 ≠ .ok () ∧
      queueRequest "jobs" {} = queueRequest "jobs" { overflow := .rejectPublish } ∧
      SimpleAmqpTransport.queueDeclaration "jobs" {} =
        SimpleAmqpTransport.queueDeclaration "jobs" { overflow := .rejectPublish }) ∧
    argument "x-max-length" (queueArguments "jobs" { maxLength := 2 ^ 31 }) =
      some (.int32 (-(2 ^ 31))) := by
  refine ⟨⟨by decide +kernel, by decide, by decide⟩, by decide⟩

theorem agree_iff_comparable_unlimited : Agree unlimited "jobs" {} { maxLength := 5 } :=
  (@agree_iff_comparable unlimited "jobs" { binding := "jobs" } (by decide +kernel)
    { maxLength := 5 }).mpr
    ⟨by decide, by decide, fun h => absurd h.maxLength (by decide)⟩

end Motus.Backends
