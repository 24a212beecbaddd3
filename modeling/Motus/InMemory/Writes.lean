import Motus.InMemory.Calls

set_option autoImplicit false

/-!
# What a call writes to the broker

`CallEffect` says what a call leaves of its transport; `BrokerEffect` says, for each
kind of call, what it leaves of the broker.  Every other call leaves the broker alone.

The two together are what the invariants about topics are proved by: a case for each way
the broker is written, and none for each call.
-/

namespace Motus.InMemory

open Motus.Foundation Motus.Transport InMemoryTransport

/-- What a call on transport number `i` makes of the broker. -/
inductive BrokerEffect (i : Nat) (b : Broker) (t : InMemoryTransport) :
    Action → Broker → Prop where
  /-- the first half of `ensureTopic`, when the topic dead-letters -/
  | declaredForensic (topic : Topic) (options : TopicOptions) (hcallable : t.callable = true)
      (hconnected : t.connected = true) (hdead : options.deadLetter = true) :
      BrokerEffect i b t (.ensureTopic i topic options)
        (Broker.ensureTopic (deadLetterTopic topic) (forensicTopicOptions topic) b).2
  /-- the second half -/
  | declared (topic : Topic) (options : TopicOptions) (halive : t.destroyed = false)
      (hdeclaring : t.declaring = some (topic, options)) :
      BrokerEffect i b t (.ensureTopicSource i) (Broker.ensureTopic topic options b).2
  | published (topic : Topic) (payload : Bytes) (options : SendOptions)
      (hpublishes : t.publishes options = true) :
      BrokerEffect i b t (.send i topic payload options)
        (Broker.publish topic payload options.route b).2
  | purged (topic : Topic) (hcallable : t.callable = true) (hconnected : t.connected = true) :
      BrokerEffect i b t (.purgeTopic i topic) (Broker.purge topic b).2
  | delivered (state : TopicState) (message : Held) (rest : List Held) (hidle : t.idle = true)
      (hconnected : t.connected = true) (hhandler : t.handler = true)
      (hempty : t.outstanding.isEmpty = true) (hfind : b.find t.topic = some state)
      (hmessages : state.messages = message :: rest) :
      BrokerEffect i b t (.pump i) (b.handedOut i t.topic state message rest)
  | handled (message : Held) (d : Disposition) (hd : d ≠ .deferred)
      (hcallable : t.callable = true) (hmessage : t.handling = some message) :
      BrokerEffect i b t (.handlerReturns i (.returned d))
        ((b.log (.resolved i message.sequence)).performed t.topic message d)
  | settled (tag : Nat) (message : Held) (d : Disposition) (hd : d ≠ .deferred)
      (hcallable : t.callable = true) (hconnected : t.connected = true)
      (hmessage : t.outstanding[tag]? = some message) :
      BrokerEffect i b t (.settle i tag d)
        ((b.log (.resolved i tag)).performed t.topic message d)
  /-- the transport was closed or destroyed -/
  | left (a : Action) (haction : a = .close i ∨ a = .destroy i) (hidle : t.idle = true) :
      BrokerEffect i b t a (b.putBackAll i t.topic t.unresolved)

section Topics

variable {i : Nat} {b b' : Broker} {t : InMemoryTransport} {a : Action}

/-- Which calls can change what topics there are. -/
theorem BrokerEffect.topics (h : BrokerEffect i b t a b')
    (hanchored : t.busy → (b.find t.topic).isSome = true) :
    Broker.SameTopics b b' ∨
      (∃ topic payload options, a = .send i topic payload options ∧
        t.publishes options = true ∧ b' = (Broker.publish topic payload options.route b).2) ∨
      (∃ topic options, a = .ensureTopic i topic options ∧ t.callable = true ∧
        t.connected = true ∧ options.deadLetter = true ∧
        b' = (Broker.ensureTopic (deadLetterTopic topic) (forensicTopicOptions topic) b).2) ∨
      ∃ topic options, a = .ensureTopicSource i ∧ t.destroyed = false ∧
        t.declaring = some (topic, options) ∧ b' = (Broker.ensureTopic topic options b).2 := by
  have hperformed : ∀ (entry : Entry) (message : Held) (d : Disposition), t.busy →
      Broker.SameTopics b ((b.log entry).performed t.topic message d) := by
    intro entry message d hbusy
    have hlog : Broker.SameTopics b (b.log entry) := .of_find fun _ => rfl
    exact hlog.trans (Broker.sameTopics_performed (hlog.extends.isSome (hanchored hbusy)) message d)
  cases h with
  | declaredForensic topic options hcallable hconnected hdead =>
      exact .inr (.inr (.inl ⟨topic, options, rfl, hcallable, hconnected, hdead, rfl⟩))
  | declared topic options halive hdeclaring =>
      exact .inr (.inr (.inr ⟨topic, options, rfl, halive, hdeclaring, rfl⟩))
  | published topic payload options hpublishes =>
      exact .inr (.inl ⟨topic, payload, options, rfl, hpublishes, rfl⟩)
  | purged topic => exact .inl (Broker.sameTopics_purge b topic)
  | delivered state message rest hidle hconnected hhandler hempty hfind =>
      exact .inl ((Broker.sameTopics_write hfind rest).trans (.of_find fun _ => rfl))
  | handled message d hd hcallable hmessage =>
      exact .inl (hperformed _ message d (.inr (by rw [hmessage, Option.isSome_some])))
  | settled tag message d hd hcallable hconnected hmessage =>
      exact .inl (hperformed _ message d (.inl (isEmpty_of_getElem? hmessage)))
  | left a haction hidle =>
      cases hempty : t.outstanding.isEmpty with
      | true =>
          rw [unresolved_of_isEmpty hempty]
          exact .inl (.refl b)
      | false => exact .inl (Broker.sameTopics_putBackAll (hanchored (.inl hempty)) i _)

end Topics

namespace System

/-- The action writes nothing to the broker, or what `BrokerEffect` says of it. -/
def Writes (s : System) (a : Action) (b' : Broker) : Prop :=
  b' = s.broker ∨
    ∃ i t, s.transports[i]? = some t ∧ BrokerEffect i s.broker t a b'

section

variable {s : System} {a : Action} {i : Nat} {t : InMemoryTransport}

/-- A call writes what its method writes on a transport that can take it. -/
theorem call_writes {α : Type} {may : InMemoryTransport → Bool} {x : Method α}
    (h : ∀ t, s.transports[i]? = some t → may t = true →
      Writes s a (x ⟨s.broker, t, i⟩).2.broker) :
    Writes s a (s.call i may x).broker := by
  unfold System.call
  cases hlookup : s.transports[i]? with
  | none => exact .inl rfl
  | some t =>
      dsimp only
      split
      · next hmay => exact h t hlookup hmay
      · exact .inl rfl

theorem close_run (i : Nat) (b : Broker) (t : InMemoryTransport) :
    (InMemoryTransport.close ⟨b, t, i⟩).2.broker = b.putBackAll i t.topic t.unresolved := by
  obtain ⟨outstanding, -, hreturn⟩ := returnOutstanding_apply i b t
  rw [InMemoryTransport.close, Exec.bind_ok hreturn]
  rfl

theorem destroy_run (i : Nat) (b : Broker) (t : InMemoryTransport) :
    (destroy ⟨b, t, i⟩).2.broker = b.putBackAll i t.topic t.unresolved := by
  obtain ⟨outstanding, -, hreturn⟩ := returnOutstanding_apply i b t
  have hcaught : (tryCatch returnOutstanding fun _ => pure () : Method Unit) ⟨b, t, i⟩ =
      (.ok (), ⟨b.putBackAll i t.topic t.unresolved, { t with outstanding := outstanding }, i⟩) := by
    rw [Exec.tryCatch_apply, hreturn]
  rw [destroy, Exec.bind_ok hcaught]
  rfl

theorem writes_beginEnsureTopic (hlookup : s.transports[i]? = some t)
    (hcallable : t.callable = true) (topic : Topic) (options : TopicOptions) :
    Writes s (.ensureTopic i topic options)
      (beginEnsureTopic topic options ⟨s.broker, t, i⟩).2.broker := by
  simp only [beginEnsureTopic, ensureTopicForensic, Exec.get_bind, bind_assoc]
  split
  · exact .inl rfl
  · next hconnected =>
      split
      · next hdead =>
          have hwritten : Writes s (.ensureTopic i topic options)
              (Broker.ensureTopic (deadLetterTopic topic) (forensicTopicOptions topic)
                s.broker).2 :=
            .inr ⟨i, t, hlookup, .declaredForensic topic options hcallable
              (by simpa using hconnected) hdead⟩
          rw [Exec.bind_apply, onBroker_apply]
          rcases hrun : Broker.ensureTopic (deadLetterTopic topic) (forensicTopicOptions topic)
            s.broker with ⟨r, c⟩
          rw [hrun] at hwritten
          cases r with
          | ok => exact hwritten
          | error e => exact hwritten
      · exact .inl rfl

theorem writes_endEnsureTopic (hlookup : s.transports[i]? = some t)
    (halive : t.destroyed = false) :
    Writes s (.ensureTopicSource i) (endEnsureTopic ⟨s.broker, t, i⟩).2.broker := by
  unfold endEnsureTopic
  rw [Exec.get_bind]
  cases hdeclaring : t.declaring with
  | none => exact .inl rfl
  | some declaration =>
      exact .inr ⟨i, t, hlookup, .declared declaration.1 declaration.2 halive hdeclaring⟩

/-- A `send` that does not get past its checks throws. -/
theorem send_run_refused (i : Nat) (b : Broker) (t : InMemoryTransport) {options : SendOptions}
    (hcallable : t.callable = true) (hrefused : t.publishes options = false) (topic : Topic)
    (payload : Bytes) :
    ∃ e, InMemoryTransport.send topic payload options ⟨b, t, i⟩ = (.error e, ⟨b, t, i⟩) := by
  simp only [InMemoryTransport.send, Exec.get_bind]
  split
  · exact ⟨_, rfl⟩
  · next hconnected =>
      split
      · exact ⟨_, rfl⟩
      · next hdurable =>
          rw [publishes, hcallable] at hrefused
          exact absurd hrefused (by simp [hconnected, hdurable])

theorem writes_send (hlookup : s.transports[i]? = some t) (hcallable : t.callable = true)
    (topic : Topic) (payload : Bytes) (options : SendOptions) :
    Writes s (.send i topic payload options)
      (InMemoryTransport.send topic payload options ⟨s.broker, t, i⟩).2.broker := by
  cases hpublishes : t.publishes options with
  | true =>
      obtain ⟨stats, hrun⟩ := send_apply i s.broker t hpublishes topic payload
      rw [hrun]
      exact .inr ⟨i, t, hlookup, .published topic payload options hpublishes⟩
  | false =>
      obtain ⟨e, hrun⟩ := send_run_refused i s.broker t hcallable hpublishes topic payload
      exact .inl (by rw [hrun])

/-- A send that does not get past its checks changes nothing. -/
theorem step_send_refused {s : System} {i : Nat} {topic : Topic} {payload : Bytes}
    {options : SendOptions}
    (h : ∀ t, s.transports[i]? = some t → t.publishes options = false) :
    s.step (.send i topic payload options) = s := by
  simp only [step]
  cases hlookup : s.transports[i]? with
  | none => simp only [call, hlookup]
  | some t =>
      cases hcallable : t.callable with
      | false => exact call_of_not hlookup hcallable
      | true =>
          obtain ⟨e, hrun⟩ := send_run_refused i s.broker t hcallable (h t hlookup) topic payload
          rw [call_of_may _ hlookup hcallable, hrun]
          obtain ⟨hlt, hget⟩ := List.getElem?_eq_some_iff.mp hlookup
          rw [← hget, List.set_getElem_self]

theorem writes_purgeTopic (hlookup : s.transports[i]? = some t) (hcallable : t.callable = true)
    (topic : Topic) :
    Writes s (.purgeTopic i topic)
      (InMemoryTransport.purgeTopic topic ⟨s.broker, t, i⟩).2.broker := by
  unfold InMemoryTransport.purgeTopic
  rw [Exec.get_bind]
  split
  · exact .inl rfl
  · next hconnected =>
      refine .inr ⟨i, t, hlookup, .purged topic hcallable ?_⟩
      simpa using hconnected

theorem writes_pump (hlookup : s.transports[i]? = some t) (hidle : t.idle = true) :
    Writes s (.pump i) (pumpTurn ⟨s.broker, t, i⟩).2.broker := by
  rcases pumpTurn_run i s.broker t with
    ⟨hsame, -⟩ | ⟨hconnected, hhandler, hempty, state, message, rest, hfind, hmessages, hrun⟩
  · exact .inl (by rw [hsame])
  · rw [hrun]
    exact .inr ⟨i, t, hlookup,
      .delivered state message rest hidle hconnected hhandler hempty hfind hmessages⟩

theorem writes_endPump (hlookup : s.transports[i]? = some t) (hcallable : t.callable = true)
    (outcome : HandlerOutcome) :
    Writes s (.handlerReturns i outcome) (endPump outcome ⟨s.broker, t, i⟩).2.broker := by
  cases hhandling : t.handling with
  | none => exact .inl (by rw [endPump_run_none i s.broker t outcome hhandling])
  | some message =>
      cases outcome with
      | threw what => exact .inl (by rw [endPump_run_threw i s.broker t what hhandling])
      | returned d =>
          by_cases hd : d = .deferred
          · subst hd
            exact .inl (by rw [endPump_run_deferred i s.broker t hhandling])
          · rw [endPump_run i s.broker t hd hhandling]
            exact .inr ⟨i, t, hlookup, .handled message d hd hcallable hhandling⟩

theorem writes_settle (hlookup : s.transports[i]? = some t) (hcallable : t.callable = true)
    (tag : Nat) (d : Disposition) :
    Writes s (.settle i tag d) (InMemoryTransport.settle tag d ⟨s.broker, t, i⟩).2.broker := by
  by_cases hd : d = .deferred
  · subst hd
    obtain ⟨e, hrun⟩ := settle_run_deferred i s.broker t tag
    exact .inl (by rw [hrun])
  · by_cases hnone : t.connected = true → t.outstanding[tag]? = none
    · obtain ⟨what, hrun⟩ := settle_run_none i s.broker t hd hnone
      exact .inl (by rw [hrun])
    · obtain ⟨hconnected, hsome⟩ := Classical.not_imp.mp hnone
      obtain ⟨message, hmessage⟩ := Option.ne_none_iff_exists'.mp hsome
      rw [settle_run i s.broker t hd hconnected hmessage]
      exact .inr ⟨i, t, hlookup, .settled tag message d hd hcallable hconnected hmessage⟩

end

/-- Every action writes to the broker what `BrokerEffect` says, or nothing. -/
theorem step_writes (s : System) (a : Action) : Writes s a (s.step a).broker := by
  cases a with
  | create => exact .inl rfl
  | connect i => exact call_writes fun t _ _ => .inl rfl
  | close i =>
      refine call_writes fun t hlookup hidle => ?_
      rw [close_run i s.broker t]
      exact .inr ⟨i, t, hlookup, .left _ (.inl rfl) hidle⟩
  | destroy i =>
      refine call_writes fun t hlookup hidle => ?_
      rw [destroy_run i s.broker t]
      exact .inr ⟨i, t, hlookup, .left _ (.inr rfl) hidle⟩
  | ensureTopic i topic options =>
      exact call_writes fun t hlookup hmay => writes_beginEnsureTopic hlookup hmay topic options
  | ensureTopicSource i =>
      exact call_writes fun t hlookup hmay => writes_endEnsureTopic hlookup (by simpa using hmay)
  | send i topic payload options =>
      exact call_writes fun t hlookup hmay => writes_send hlookup hmay topic payload options
  | subscribe i topic handler =>
      refine call_writes fun t _ _ => .inl ?_
      rcases subscribe_run i s.broker t topic handler with ⟨e, hrun⟩ | ⟨-, -, -, hrun⟩
      · rw [hrun]
      · rw [hrun]
  | purgeTopic i topic =>
      exact call_writes fun t hlookup hmay => writes_purgeTopic hlookup hmay topic
  | pump i => exact call_writes fun t hlookup hmay => writes_pump hlookup hmay
  | handlerReturns i outcome =>
      exact call_writes fun t hlookup hmay => writes_endPump hlookup hmay outcome
  | settle i tag d => exact call_writes fun t hlookup hmay => writes_settle hlookup hmay tag d

end System

end Motus.InMemory
