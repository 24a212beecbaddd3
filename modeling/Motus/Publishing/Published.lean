import Motus.Publishing.Producer
import Motus.InMemory.Acceptance
import Motus.Amqp.Remembered
import Motus.Consumer.ByteMessage

set_option autoImplicit false

/-!
# The sends that both sides count

A Producer counts the sends that its transport accepts.  `AmqpCppTransport` counts the
same ones, `InMemoryTransport` those that its broker refuses as well.  The other calls,
on the transport of the Producer and on any others, are the environment's choice.

The two counts agree over a run exactly if no send was refused for want of room, in
memory, and always over AMQP.
-/

namespace Motus.Publishing

open Motus.Foundation Motus.Transport

/-- A Producer and what it publishes over. -/
structure WithProducer (σ : Type) where
  system : σ
  producer : Producer

/-- What happens: the Producer publishes, and the send meets this, or another call is
made. -/
inductive Use (μ ν α : Type) where
  | publish (topic : Topic) (message : μ) (env : ν)
  | call (a : α)
  deriving DecidableEq, Repr

section

variable {ε μ : Type} (serialize : μ → Except ε Bytes)

/-! ## Over an in-memory transport -/

section InMemory

open Motus.InMemory System InMemoryTransport

/-- The Producer publishes over transport `i`. -/
def stepInMemory (i : Nat) (s : WithProducer System) : Use μ Unit Action → WithProducer System
  | .call a => { s with system := s.system.step a }
  | .publish topic message _ =>
      match s.system.transports[i]? with
      | none => s
      | some t =>
          if t.callable then
            let after := (Producer.publish serialize InMemoryTransport.send topic message
              (⟨s.system.broker, t, i⟩, s.producer)).2
            ⟨⟨after.1.broker, s.system.transports.set i after.1.self⟩, after.2⟩
          else s

/-- A Producer over transport `i` of an in-memory system. -/
def overInMemory (i : Nat) (options : SendOptions) :
    Machine (WithProducer System) (Use μ Unit Action) where
  init := ⟨System.machine.init, { options := options }⟩
  step := stepInMemory serialize i

/-- Nothing but the Producer sends through transport `i`. -/
def sparesInMemory (i : Nat) : Use μ Unit Action → Bool
  | .call (.send j _ _ _) => decide (j ≠ i)
  | _ => true

/-- Transport `i` has counted what the Producer has. -/
def AgreesInMemory (i : Nat) (s : WithProducer System) : Prop :=
  s.system.sent i = s.producer.published

instance (i : Nat) (s : WithProducer System) : Decidable (AgreesInMemory i s) :=
  inferInstanceAs (Decidable (_ = _))

/-- If the Producer publishes what gets to the broker, every destination has room for
its copy. -/
def hasRoom (i : Nat) (s : WithProducer System) : Use μ Unit Action → Bool
  | .call _ => true
  | .publish topic message _ =>
      match s.system.transports[i]? with
      | none => true
      | some t =>
          !((serialize message).isOk && t.publishes s.producer.options) ||
            s.system.broker.accommodates []
              (s.system.broker.receivers topic s.producer.options.route)

/-- The Producer publishes by a send. -/
theorem stepInMemory_publish {i : Nat} {s : WithProducer System} {topic : Topic} {message : μ}
    {payload : Bytes} (hserialize : serialize message = .ok payload) {t : InMemoryTransport}
    (hlookup : s.system.transports[i]? = some t) (hcallable : t.callable = true) :
    stepInMemory serialize i s (.publish topic message ()) =
      ⟨s.system.step (.send i topic payload s.producer.options),
        s.producer.told (InMemoryTransport.send topic payload s.producer.options
          ⟨s.system.broker, t, i⟩).1⟩ := by
  simp only [stepInMemory, hlookup, if_pos hcallable,
    Producer.publish_serialized serialize _ hserialize]
  rw [System.step, call_of_may _ hlookup hcallable]

/-- A publish that does not get to the broker changes nothing. -/
theorem publish_reaches_or_not (i : Nat) (s : WithProducer System) (topic : Topic) (message : μ) :
    stepInMemory serialize i s (.publish topic message ()) = s ∧
        hasRoom serialize i s (.publish topic message ()) = true ∨
      ∃ payload t, serialize message = .ok payload ∧ s.system.transports[i]? = some t ∧
        t.publishes s.producer.options = true := by
  cases hlookup : s.system.transports[i]? with
  | none =>
      refine .inl ⟨?_, ?_⟩
      · simp only [stepInMemory, hlookup]
      · simp only [hasRoom, hlookup]
  | some t =>
  cases hserialize : serialize message with
  | error e =>
      refine .inl ⟨?_, ?_⟩
      · simp only [stepInMemory, hlookup, Producer.publish_unserialized serialize _ hserialize]
        obtain ⟨hlt, hget⟩ := List.getElem?_eq_some_iff.mp hlookup
        rw [← hget, List.set_getElem_self]
        exact ite_self s
      · simp only [hasRoom, hlookup, hserialize]
        rfl
  | ok payload =>
  cases hpublishes : t.publishes s.producer.options with
  | true => exact .inr ⟨payload, t, rfl, rfl, hpublishes⟩
  | false =>
      refine .inl ⟨?_, ?_⟩
      · cases hcallable : t.callable with
        | false =>
            simp only [stepInMemory, hlookup, hcallable]
            rfl
        | true =>
            obtain ⟨e, hrun⟩ :=
              send_run_refused i s.system.broker t hcallable hpublishes topic payload
            rw [stepInMemory_publish serialize hserialize hlookup hcallable, hrun,
              step_send_refused fun u hu => by
                rwa [← Option.some.inj (hlookup.symm.trans hu)]]
            rfl
      · simp only [hasRoom, hlookup, hpublishes, Bool.and_false, Bool.not_false, Bool.true_or]

/-- The step lemma: the two counts still agree exactly when there was room. -/
theorem agreesInMemory_publish {i : Nat} {s : WithProducer System}
    (hprovided : Provided s.system) (h : AgreesInMemory i s) (topic : Topic) (message : μ) :
    Provided (stepInMemory serialize i s (.publish topic message ())).system ∧
      (AgreesInMemory i (stepInMemory serialize i s (.publish topic message ())) ↔
        hasRoom serialize i s (.publish topic message ()) = true) := by
  rcases publish_reaches_or_not serialize i s topic message with
    ⟨hsame, hroom⟩ | ⟨payload, t, hserialize, hlookup, hpublishes⟩
  · rw [hsame]
    exact ⟨hprovided, iff_of_true h hroom⟩
  have hcallable : t.callable = true := by
    simp only [publishes, Bool.and_eq_true] at hpublishes
    exact hpublishes.1.1
  obtain ⟨hanswer, hcounted⟩ := send_counts i t hpublishes
    (Broker.publish_answers hprovided.forensic topic payload s.producer.options.route)
  have hsent : (s.system.step (.send i topic payload s.producer.options)).sent i =
      s.system.sent i + 1 := by
    obtain ⟨hlt, -⟩ := List.getElem?_eq_some_iff.mp hlookup
    rw [System.step, call_of_may _ hlookup hcallable, sent, List.getElem?_set, if_pos rfl,
      if_pos hlt, Option.map_some, Option.getD_some, hcounted, sent, hlookup]
    rfl
  rw [stepInMemory_publish serialize hserialize hlookup hcallable]
  have hnext := hprovided.step (.send i topic payload s.producer.options)
  refine ⟨hnext, ?_⟩
  have hroom : hasRoom serialize i s (.publish topic message ()) =
      s.system.broker.accommodates []
        (s.system.broker.receivers topic s.producer.options.route) := by
    simp only [hasRoom, hlookup, hserialize, hpublishes]
    rfl
  unfold AgreesInMemory at *
  rw [hsent, hanswer, Producer.published_told_ok, h, hroom]
  cases s.system.broker.accommodates []
      (s.system.broker.receivers topic s.producer.options.route) <;> simp

/-- The run lemma. -/
theorem agreesInMemory_iff (i : Nat) (options : SendOptions) {uses : List (Use μ Unit Action)}
    (hspares : ∀ use ∈ uses, sparesInMemory i use = true) :
    (overInMemory serialize i options).Always (AgreesInMemory i) uses ↔
      (overInMemory serialize i options).Guarded
        (fun s use => hasRoom serialize i s use = true) uses := by
  refine Machine.alwaysFrom_iff_guardedFrom_of_kind (J := fun s => Provided s.system)
    ?_ ?_ ?_ uses hspares provided_init rfl
  all_goals
    rintro s (⟨topic, message, ⟨⟩⟩ | a) huse hprovided hagrees
  · exact (agreesInMemory_publish serialize hprovided hagrees topic message).1
  · exact hprovided.step a
  · exact (agreesInMemory_publish serialize hprovided hagrees topic message).2.mpr
  · intro _
    refine (sent_step fun topic payload sendOptions heq => ?_).trans hagrees
    subst heq
    exact absurd huse (by simp [sparesInMemory])
  · exact (agreesInMemory_publish serialize hprovided hagrees topic message).2.mp
  · exact fun _ => rfl

end InMemory

/-! ## Over AMQP-CPP -/

section Amqp

open Motus.Amqp AmqpCppTransport Session

/-- The Producer publishes over the transport of a process. -/
def stepAmqp (s : WithProducer Process) : Use μ Outbound Call → WithProducer Process
  | .call call => { s with system := s.system.step call }
  | .publish topic message out =>
      if s.system.running then
        let (result, transport, producer) := Producer.publish serialize
          (fun topic payload options => AmqpCppTransport.send topic payload options out)
          topic message (s.system.transport, s.producer)
        ⟨{ transport := transport
           terminated := match result with
             | .error (.sending .terminate) => true
             | _ => false }, producer⟩
      else s

/-- A Producer over an AMQP transport. -/
def overAmqp (options : SendOptions) : Machine (WithProducer Process) (Use μ Outbound Call) where
  init := ⟨Process.machine.init, { options := options }⟩
  step := stepAmqp serialize

/-- Nothing but the Producer sends. -/
def sparesAmqp : Use μ Outbound Call → Bool
  | .call (.send ..) => false
  | _ => true

/-- The transport has counted what the Producer has. -/
def AgreesAmqp (s : WithProducer Process) : Prop :=
  s.system.transport.session.stats.sent = s.producer.published

/-- The sends that a session has counted. -/
def sentOf (s : Session) : Nat := s.stats.sent

theorem keptByPump_sent : KeptByPump (Exec.Same sentOf) where
  answer := fun _ _ => rfl
  routes := fun _ _ => rfl
  channel := fun _ _ _ _ _ => rfl
  received := fun _ _ _ _ _ _ hhandled => by rcases hhandled with _ | ⟨_ | _ | _ | _⟩ <;> rfl
  declared := fun _ _ _ _ => rfl
  consumed := fun _ _ _ _ => rfl
  opened := fun _ _ => rfl
  dropped := fun _ => rfl
  forgotten := fun _ => rfl
  endpoint := fun _ _ => rfl
  backoff := fun _ _ _ _ => rfl
  reconnected := fun _ => rfl
  rethrown := fun _ _ _ => rfl
  policy := fun _ _ => rfl

theorem keptBySettle_sent : KeptBySettle (Exec.Same sentOf) where
  resolved := fun _ _ _ => rfl
  performed := fun _ _ _ hperformed => by cases hperformed <;> rfl

/-- Only a send is counted as one. -/
theorem sent_call {call : Call}
    (h : ∀ topic payload options out, call ≠ .send topic payload options out)
    (t : AmqpCppTransport) : sentOf (call.method t).2.session = sentOf t.session :=
  KeptByPump.call keptByPump_sent call
    (fun topic payload options out heq => absurd heq (h topic payload options out))
    (fun _ _ _ _ _ => rfl) (fun _ _ _ _ _ => ⟨rfl, rfl⟩) (fun _ _ _ => rfl)
    (fun tag disposition out _ => KeptBySettle.settle keptBySettle_sent tag disposition out) t

/-- A send is counted exactly when it answers that it was accepted. -/
theorem sent_send (topic : Topic) (payload : Bytes) (options : SendOptions) (out : Outbound)
    {t : AmqpCppTransport} {p : Producer} (h : sentOf t.session = p.published) :
    sentOf (AmqpCppTransport.send topic payload options out t).2.session =
      (p.told (AmqpCppTransport.send topic payload options out t).1).published := by
  unfold AmqpCppTransport.send
  rw [requireChannel_bind]
  split
  · exact h
  split
  · exact h
  have hemit : OnSession (Exec.Same sentOf) t (serve (emit out) t).2 :=
    onSession_serve (onOwner_emit out) t
  rw [Exec.bind_apply]
  rcases hrun : serve (emit out) t with ⟨r, t'⟩
  rw [hrun] at hemit
  have hsame : sentOf t'.session = sentOf t.session := hemit
  rcases r with e | _ | _
  · exact hsame.trans h
  · exact hsame.trans h
  · exact congrArg (· + 1) (hsame.trans h)

theorem agreesAmqp_step {s : WithProducer Process} {use : Use μ Outbound Call}
    (hspares : sparesAmqp use = true) (h : AgreesAmqp s) :
    AgreesAmqp (stepAmqp serialize s use) := by
  cases use with
  | call call =>
      unfold stepAmqp AgreesAmqp Process.step
      dsimp only
      split
      · refine (sent_call (fun topic payload options out heq => ?_) s.system.transport).trans h
        subst heq
        exact absurd hspares Bool.false_ne_true
      · exact h
  | publish topic message out =>
      unfold stepAmqp
      dsimp only
      split
      · cases hserialize : serialize message with
        | error e =>
            rw [Producer.publish_unserialized serialize _ hserialize]
            exact h
        | ok payload =>
            rw [Producer.publish_serialized serialize _ hserialize]
            exact sent_send topic payload s.producer.options out h
      · exact h

/-- The run lemma. -/
theorem agreesAmqp_run (options : SendOptions) {uses : List (Use μ Outbound Call)}
    (hspares : ∀ use ∈ uses, sparesAmqp use = true) :
    (overAmqp serialize options).Always AgreesAmqp uses := by
  refine Machine.AlwaysFrom.of_kind ?_ rfl hspares
  exact fun _ _ huse h => agreesAmqp_step serialize huse h

end Amqp

/-- One Producer is the only sender on its transport.  Over AMQP-CPP the transport counts
in every run what the Producer counts; in memory it does so exactly as long as every
destination of every publish has room for its copy. -/
theorem sent_eq_published_iff_hasRoom (options : SendOptions) :
    (∀ (i : Nat) (uses : List (Use μ Unit InMemory.Action)),
      (∀ use ∈ uses, sparesInMemory i use = true) →
        ((overInMemory serialize i options).Always (AgreesInMemory i) uses ↔
          (overInMemory serialize i options).Guarded
            (fun s use => hasRoom serialize i s use = true) uses)) ∧
    ∀ uses : List (Use μ Amqp.Outbound Amqp.AmqpCppTransport.Call),
      (∀ use ∈ uses, sparesAmqp use = true) →
        (overAmqp serialize options).Always AgreesAmqp uses :=
  ⟨fun i _ hspares => agreesInMemory_iff serialize i options hspares,
    fun _ hspares => agreesAmqp_run serialize options hspares⟩

end

/-- The topic has room for one message, and two are published. -/
def fillingUses : List (Use Consumer.ByteMessage Unit InMemory.Action) :=
  [.call .create, .call (.connect 0),
    .call (.ensureTopic 0 "jobs" { maxLength := 1, overflow := .rejectPublish }),
    .call (.ensureTopicSource 0), .publish "jobs" ⟨[1]⟩ (), .publish "jobs" ⟨[2]⟩ ()]

/-- Two messages are published, one on the topic and one on no topic. -/
def publishingUses : List (Use Consumer.ByteMessage Amqp.Outbound Amqp.AmqpCppTransport.Call) :=
  Amqp.plainRun.map .call ++ [.publish "jobs" ⟨[1]⟩ {}, .publish "results" ⟨[2]⟩ {}]

theorem sent_eq_published_iff_hasRoom_fillingUses :
    (overInMemory Consumer.ByteMessage.serialize 0 { durable := false }).Always
        (AgreesInMemory 0) (fillingUses.take 5) ∧
      (overAmqp Consumer.ByteMessage.serialize {}).Always AgreesAmqp publishingUses :=
  ⟨((sent_eq_published_iff_hasRoom Consumer.ByteMessage.serialize { durable := false }).1 0
      (fillingUses.take 5) (by decide)).mpr (by decide +kernel),
    (sent_eq_published_iff_hasRoom Consumer.ByteMessage.serialize {}).2 publishingUses (by decide)⟩

/-- The second message is refused: the transport has counted two sends, the Producer
one. -/
theorem fillingUses_disagree :
    (∀ use ∈ fillingUses, sparesInMemory 0 use = true) ∧
      ((overInMemory Consumer.ByteMessage.serialize 0 { durable := false }).run
        fillingUses).system.sent 0 = 2 ∧
      ((overInMemory Consumer.ByteMessage.serialize 0 { durable := false }).run
        fillingUses).producer.published = 1 ∧
      ¬ (overInMemory Consumer.ByteMessage.serialize 0 { durable := false }).Always
        (AgreesInMemory 0) fillingUses := by
  exact ⟨by decide, by decide +kernel, by decide +kernel, by decide +kernel⟩

end Motus.Publishing
