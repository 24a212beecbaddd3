import Motus.InMemory.System
import Motus.InMemory.Enqueue

set_option autoImplicit false

/-!
# What one action can do

`SiteEffect` lists what a call on one transport does to the broker and to the
transport's own bookkeeping, and `step_effect` shows that an action does nothing
else.  The invariants of the system are proved by cases on the effects, so that
only this module looks into the methods.
-/

namespace Motus.InMemory

open Motus.Foundation Motus.Transport

namespace InMemoryTransport

/-- The fields that decide where deliveries come from are the same, no declaration of a
topic that dead-letters has been begun, and the destructor has not run. -/
structure Kept (t t' : InMemoryTransport) : Prop where
  topic : t'.topic = t.topic
  subscribed : t'.subscribed = t.subscribed
  handler : t'.handler = t.handler
  declaring : ∀ d, t'.declaring = some d → t.declaring = some d ∨ d.2.deadLetter = false
  destroyed : t'.destroyed = t.destroyed

theorem Kept.refl (t : InMemoryTransport) : Kept t t := ⟨rfl, rfl, rfl, fun _ h => .inl h, rfl⟩

/-- The messages an action on this transport puts back at the head of its topic. -/
def putBack (t : InMemoryTransport) : Action → List Held
  | .handlerReturns _ (.returned .requeue) => if t.callable then t.handling.toList else []
  | .settle _ tag .requeue =>
      if t.callable ∧ t.connected = true then (t.outstanding[tag]?).toList else []
  | .close _ => if t.idle then t.unresolved else []
  | .destroy _ => if t.idle then t.unresolved else []
  | _ => []

/-- A `send` gets past its checks and publishes. -/
def publishes (t : InMemoryTransport) (options : SendOptions) : Bool :=
  t.callable && t.connected && !options.durable

end InMemoryTransport

namespace Broker

/-- A delivery is taken from the head of a topic and handed to a transport. -/
def handedOut (b : Broker) (i : Nat) (topic : Topic) (state : TopicState) (message : Held)
    (rest : List Held) : Broker :=
  (b.write topic { state with messages := rest }).log (.delivered i topic message)

/-- What carrying out a disposition does to the broker. -/
def performed (b : Broker) (topic : Topic) (message : Held) : Disposition → Broker
  | .ack => b.close message .acked
  | .requeue => b.pushFront topic { message with redelivered := true }
  | .reject => (deadLetter topic message b).2
  | .deferred => b

/-- One message of a transport that leaves is put back. -/
def putBackOne (b : Broker) (i : Nat) (topic : Topic) (message : Held) : Broker :=
  (b.pushFront topic { message with redelivered := true }).log (.resolved i message.sequence)

/-- All messages of a transport that leaves are put back, the last first. -/
def putBackAll (b : Broker) (i : Nat) (topic : Topic) (messages : List Held) : Broker :=
  messages.foldr (fun message b => b.putBackOne i topic message) b

end Broker

open InMemoryTransport Broker

/-- What a call on transport number `i` does to the broker and to the transport. -/
inductive SiteEffect (i : Nat) (a : Action) (b : Broker) (t : InMemoryTransport) :
    Broker → InMemoryTransport → Prop where
  /-- nothing that concerns messages; a handler that threw or deferred has left -/
  | quiet {t' : InMemoryTransport} (hkept : Kept t t') (houtstanding : t'.outstanding = t.outstanding)
      (hhandling : t'.handling = t.handling ∨ t'.handling = none) (hback : t.putBack a = []) :
      SiteEffect i a b t b t'
  /-- the first half of `ensureTopic`, when the topic dead-letters -/
  | declaredForensic {t' : InMemoryTransport} (topic : Topic) (options : TopicOptions)
      (hkept : Kept { t with declaring := t'.declaring } t')
      (hdeclaring : t'.declaring = t.declaring ∨ t'.declaring = some (topic, options) ∧
        (Broker.ensureTopic (deadLetterTopic topic) (forensicTopicOptions topic) b).1 = .ok ())
      (houtstanding : t'.outstanding = t.outstanding) (hhandling : t'.handling = t.handling)
      (hback : t.putBack a = []) :
      SiteEffect i a b t
        (Broker.ensureTopic (deadLetterTopic topic) (forensicTopicOptions topic) b).2 t'
  /-- the second half -/
  | declared {t' : InMemoryTransport} (topic : Topic) (options : TopicOptions)
      (hdeclaring : t.declaring = some (topic, options)) (hkept : Kept t t')
      (houtstanding : t'.outstanding = t.outstanding) (hhandling : t'.handling = t.handling)
      (hback : t.putBack a = []) :
      SiteEffect i a b t (Broker.ensureTopic topic options b).2 t'
  | published {t' : InMemoryTransport} (topic : Topic) (payload : Bytes) (options : SendOptions)
      (haction : a = .send i topic payload options) (hpublishes : t.publishes options = true)
      (hkept : Kept t t') (houtstanding : t'.outstanding = t.outstanding)
      (hhandling : t'.handling = t.handling) :
      SiteEffect i a b t (publish topic payload options.route b).2 t'
  | subscribed (topic : Topic) (hfree : t.subscribed = false) (hback : t.putBack a = []) :
      SiteEffect i a b t b { t with topic := topic, handler := true, subscribed := true }
  | purged (topic : Topic) (hback : t.putBack a = []) :
      SiteEffect i a b t (purge topic b).2 t
  | delivered {t' : InMemoryTransport} (state : TopicState) (message : Held) (rest : List Held)
      (hhandler : t.handler = true) (hempty : t.outstanding.isEmpty = true)
      (hidle : t.handling = none) (hfind : b.find t.topic = some state)
      (hmessages : state.messages = message :: rest) (hkept : Kept t t')
      (houtstanding : t'.outstanding = t.outstanding.insertIfNew message.sequence message)
      (hhandling : t'.handling = some message) (hback : t.putBack a = []) :
      SiteEffect i a b t (b.handedOut i t.topic state message rest) t'
  /-- the handler of `message` returned a final disposition -/
  | handled {t' : InMemoryTransport} (message : Held) (d : Disposition) (hd : d ≠ .deferred)
      (hmessage : t.handling = some message) (hkept : Kept t t')
      (houtstanding : t'.outstanding = t.outstanding.erase message.sequence)
      (hhandling : t'.handling = none)
      (hback : t.putBack a = if d = .requeue then [message] else []) :
      SiteEffect i a b t ((b.log (.resolved i message.sequence)).performed t.topic message d) t'
  /-- `settle` carried out a final disposition -/
  | settled {t' : InMemoryTransport} (tag : Nat) (message : Held) (d : Disposition)
      (haction : a = .settle i tag d) (hd : d ≠ .deferred)
      (hmessage : t.outstanding[tag]? = some message) (hkept : Kept t t')
      (houtstanding : t'.outstanding = t.outstanding.erase tag)
      (hhandling : t'.handling = t.handling)
      (hback : t.putBack a = if d = .requeue then [message] else []) :
      SiteEffect i a b t ((b.log (.resolved i tag)).performed t.topic message d) t'
  /-- the transport was closed or destroyed -/
  | left {t' : InMemoryTransport} (hidle : t.handling = none) (houtstanding : t'.outstanding.isEmpty = true)
      (hhandling : t'.handling = none) (hsubscribed : t'.subscribed = false)
      (hhandler : t'.handler = false) (hdeclaring : t'.declaring = t.declaring)
      (hback : t.putBack a = t.unresolved) :
      SiteEffect i a b t (b.putBackAll i t.topic t.unresolved) t'

/-- What an action does to the system. -/
inductive Effect (s : System) (a : Action) : System → Prop where
  | nothing (hback : ∀ i t, a.transport = some i → s.transports[i]? = some t → t.putBack a = []) :
      Effect s a s
  | created (haction : a = .create) : Effect s a { s with transports := s.transports ++ [{}] }
  | site {i : Nat} {t t' : InMemoryTransport} {b' : Broker} (haction : a.transport = some i)
      (hlookup : s.transports[i]? = some t) (heffect : SiteEffect i a s.broker t b' t') :
      Effect s a ⟨b', s.transports.set i t'⟩

/-! ## The methods -/

section Methods

variable (i : Nat) (b : Broker) (t : InMemoryTransport)

@[simp] theorem onBroker_apply {α : Type} (x : Exec Exn Broker α) (s : Site) :
    onBroker x s = ((x s.broker).1, { s with broker := (x s.broker).2 }) := rfl

@[simp] theorem setSelf_apply (t' : InMemoryTransport) (s : Site) :
    setSelf t' s = (.ok (), { s with self := t' }) := rfl

@[simp] theorem setSelf_bind {α : Type} (t' : InMemoryTransport) (f : Unit → Method α)
    (s : Site) : (setSelf t' >>= f) s = f () { s with self := t' } := rfl

@[simp] theorem record_bind {α : Type} (e : Entry) (f : Unit → Method α) (s : Site) :
    (record e >>= f) s = f () { s with broker := s.broker.log e } := rfl

/-- Only the statistics of the transport change. -/
theorem perform_apply (message : Held) {d : Disposition} (hd : d ≠ .deferred) :
    ∃ r stats, perform message d ⟨b, t, i⟩ =
      (r, ⟨b.performed t.topic message d, { t with stats := stats }, i⟩) := by
  cases d with
  | ack => exact ⟨_, _, rfl⟩
  | requeue => exact ⟨_, _, rfl⟩
  | deferred => exact absurd rfl hd
  | reject =>
      simp only [perform, Exec.get_bind, performed]
      rw [Exec.bind_apply, onBroker_apply]
      rcases deadLetter t.topic message b with ⟨r, c⟩
      cases r with
      | ok => exact ⟨_, _, rfl⟩
      | error e => exact ⟨_, t.stats, rfl⟩

theorem requeueAll_apply (topic : Topic) (messages : List Held) :
    requeueAll topic messages ⟨b, t, i⟩ =
      (.ok (), ⟨b.putBackAll i topic messages, t, i⟩) := by
  induction messages with
  | nil => rfl
  | cons message rest ih =>
      simp only [requeueAll]
      rw [Exec.bind_ok ih]
      rfl

theorem unresolved_of_isEmpty {t : InMemoryTransport} (h : t.outstanding.isEmpty = true) :
    t.unresolved = [] := by
  rw [unresolved, List.map_eq_nil_iff, ← List.isEmpty_iff, Std.TreeMap.isEmpty_toList, h]

theorem returnOutstanding_apply :
    ∃ outstanding : Std.TreeMap Nat Held, outstanding.isEmpty = true ∧
      returnOutstanding ⟨b, t, i⟩ =
        (.ok (), ⟨b.putBackAll i t.topic t.unresolved,
          { t with outstanding := outstanding }, i⟩) := by
  simp only [returnOutstanding, Exec.get_bind]
  split
  · next hempty =>
      exact ⟨t.outstanding, hempty, by rw [unresolved_of_isEmpty hempty]; rfl⟩
  · refine ⟨{}, rfl, ?_⟩
    rw [Exec.bind_ok (requeueAll_apply i b t t.topic t.unresolved)]
    rfl

theorem close_effect (hidle : t.idle = true) :
    SiteEffect i (.close i) b t (InMemoryTransport.close ⟨b, t, i⟩).2.broker
      (InMemoryTransport.close ⟨b, t, i⟩).2.self := by
  obtain ⟨outstanding, hempty, hreturn⟩ := returnOutstanding_apply i b t
  have hclose : InMemoryTransport.close ⟨b, t, i⟩ =
      (.ok (), ⟨b.putBackAll i t.topic t.unresolved,
        { t with outstanding := outstanding, connected := false, subscribed := false,
                 handler := false, topic := "" }, i⟩) := by
    rw [InMemoryTransport.close, Exec.bind_ok hreturn]
    rfl
  have hhandling : t.handling = none := by
    simpa [idle] using (Bool.and_eq_true_iff.mp hidle).2
  rw [hclose]
  exact .left hhandling hempty hhandling rfl rfl rfl (by simp [putBack, hidle])

theorem destroy_effect (hidle : t.idle = true) :
    SiteEffect i (.destroy i) b t (destroy ⟨b, t, i⟩).2.broker (destroy ⟨b, t, i⟩).2.self := by
  obtain ⟨outstanding, hempty, hreturn⟩ := returnOutstanding_apply i b t
  have hdestroy : destroy ⟨b, t, i⟩ =
      (.ok (), ⟨b.putBackAll i t.topic t.unresolved,
        { t with outstanding := outstanding, destroyed := true, connected := false,
                 subscribed := false, handler := false }, i⟩) := by
    have htry : (tryCatch returnOutstanding fun _ => pure () : Method Unit) ⟨b, t, i⟩ =
        (.ok (), ⟨b.putBackAll i t.topic t.unresolved,
          { t with outstanding := outstanding }, i⟩) := by
      rw [Exec.tryCatch_apply, hreturn]
    rw [destroy, Exec.bind_ok htry]
    rfl
  have hhandling : t.handling = none := by
    simpa [idle] using (Bool.and_eq_true_iff.mp hidle).2
  rw [hdestroy]
  exact .left hhandling hempty hhandling rfl rfl rfl (by simp [putBack, hidle])

theorem connect_effect :
    SiteEffect i (.connect i) b t (connect ⟨b, t, i⟩).2.broker (connect ⟨b, t, i⟩).2.self :=
  .quiet ⟨rfl, rfl, rfl, fun _ h => .inl h, rfl⟩ rfl (.inl rfl) rfl

theorem beginEnsureTopic_effect (topic : Topic) (options : TopicOptions) :
    SiteEffect i (.ensureTopic i topic options) b t
      (beginEnsureTopic topic options ⟨b, t, i⟩).2.broker
      (beginEnsureTopic topic options ⟨b, t, i⟩).2.self := by
  have hquiet : ∀ t' : InMemoryTransport, Kept t t' → t'.outstanding = t.outstanding →
      t'.handling = t.handling → SiteEffect i (.ensureTopic i topic options) b t b t' :=
    fun t' hkept ho hh => .quiet hkept ho (.inl hh) rfl
  by_cases hconnected : t.connected = false
  · have hrun : (beginEnsureTopic topic options ⟨b, t, i⟩).2 = ⟨b, t, i⟩ := by
      simp [beginEnsureTopic, ensureTopicForensic, hconnected]
    rw [hrun]
    exact hquiet t (Kept.refl t) rfl rfl
  · cases hdead : options.deadLetter with
    | false =>
        have hrun : (beginEnsureTopic topic options ⟨b, t, i⟩).2 =
            ⟨b, { t with declaring := some (topic, options) }, i⟩ := by
          simp [beginEnsureTopic, ensureTopicForensic, hconnected, hdead]
        rw [hrun]
        refine hquiet _ ⟨rfl, rfl, rfl, fun d hd => .inr ?_, rfl⟩ rfl rfl
        rw [← Option.some.inj hd, hdead]
    | true =>
        have hrun : ∃ declaring, (beginEnsureTopic topic options ⟨b, t, i⟩).2 =
            ⟨(Broker.ensureTopic (deadLetterTopic topic) (forensicTopicOptions topic) b).2,
              { t with declaring := declaring }, i⟩ ∧
            (declaring = t.declaring ∨ declaring = some (topic, options) ∧
              (Broker.ensureTopic (deadLetterTopic topic) (forensicTopicOptions topic) b).1 =
                .ok ()) := by
          simp only [beginEnsureTopic, ensureTopicForensic, Exec.get_bind, bind_assoc]
          rw [if_neg hconnected, if_pos hdead, Exec.bind_apply, onBroker_apply]
          rcases Broker.ensureTopic (deadLetterTopic topic) (forensicTopicOptions topic) b
            with ⟨r, c⟩
          cases r with
          | ok => exact ⟨_, rfl, .inr ⟨rfl, rfl⟩⟩
          | error e => exact ⟨t.declaring, rfl, .inl rfl⟩
        obtain ⟨declaring, hrun, hdeclaring⟩ := hrun
        rw [hrun]
        exact .declaredForensic topic options ⟨rfl, rfl, rfl, fun _ h => .inl h, rfl⟩ hdeclaring
          rfl rfl rfl

theorem endEnsureTopic_effect :
    SiteEffect i (.ensureTopicSource i) b t (endEnsureTopic ⟨b, t, i⟩).2.broker
      (endEnsureTopic ⟨b, t, i⟩).2.self := by
  cases hdeclaring : t.declaring with
  | none =>
      have hrun : (endEnsureTopic ⟨b, t, i⟩).2 = ⟨b, t, i⟩ := by
        simp [endEnsureTopic, hdeclaring]
      rw [hrun]
      exact .quiet (Kept.refl t) rfl (.inl rfl) rfl
  | some declaration =>
      obtain ⟨topic, options⟩ := declaration
      have hrun : (endEnsureTopic ⟨b, t, i⟩).2 =
          ⟨(Broker.ensureTopic topic options b).2, { t with declaring := none }, i⟩ := by
        simp [endEnsureTopic, hdeclaring, ensureTopicSource]
      rw [hrun]
      exact .declared topic options hdeclaring ⟨rfl, rfl, rfl, by simp, rfl⟩ rfl rfl rfl

/-- A `send` that gets past its checks. -/
theorem send_apply {options : SendOptions} (hpublishes : t.publishes options = true)
    (topic : Topic) (payload : Bytes) :
    ∃ stats, (InMemoryTransport.send topic payload options ⟨b, t, i⟩).2 =
      ⟨(publish topic payload options.route b).2, { t with stats := stats }, i⟩ := by
  have hconnected : t.connected = true := by
    simp only [publishes, Bool.and_eq_true] at hpublishes
    exact hpublishes.1.2
  have hdurable : options.durable = false := by
    simpa [publishes] using (Bool.and_eq_true_iff.mp hpublishes).2
  simp only [InMemoryTransport.send, Exec.get_bind]
  rw [if_neg (by simp [hconnected]), if_neg (by simp [hdurable]), Exec.bind_apply, onBroker_apply]
  rcases publish topic payload options.route b with ⟨r, c⟩
  cases r with
  | ok => exact ⟨_, rfl⟩
  | error e => exact ⟨t.stats, rfl⟩

theorem send_effect (hcallable : t.callable = true) (topic : Topic) (payload : Bytes)
    (options : SendOptions) :
    SiteEffect i (.send i topic payload options) b t
      (InMemoryTransport.send topic payload options ⟨b, t, i⟩).2.broker
      (InMemoryTransport.send topic payload options ⟨b, t, i⟩).2.self := by
  have hquiet : SiteEffect i (.send i topic payload options) b t b t :=
    .quiet (Kept.refl t) rfl (.inl rfl) rfl
  by_cases hconnected : t.connected = false
  · have hrun : (InMemoryTransport.send topic payload options ⟨b, t, i⟩).2 = ⟨b, t, i⟩ := by
      simp only [InMemoryTransport.send, Exec.get_bind, if_pos hconnected]
      rfl
    rw [hrun]
    exact hquiet
  · cases hdurable : options.durable with
    | true =>
        have hrun : (InMemoryTransport.send topic payload options ⟨b, t, i⟩).2 = ⟨b, t, i⟩ := by
          simp only [InMemoryTransport.send, Exec.get_bind, if_neg hconnected, if_pos hdurable]
          rfl
        rw [hrun]
        exact hquiet
    | false =>
        have hpublishes : t.publishes options = true := by
          simp [publishes, hcallable, hdurable, Bool.eq_true_of_not_eq_false hconnected]
        obtain ⟨stats, hrun⟩ := send_apply i b t hpublishes topic payload
        rw [hrun]
        exact .published topic payload options rfl hpublishes ⟨rfl, rfl, rfl, fun _ h => .inl h, rfl⟩
          rfl rfl

theorem subscribe_effect (topic : Topic) (handler : Bool) :
    SiteEffect i (.subscribe i topic handler) b t
      (InMemoryTransport.subscribe topic handler ⟨b, t, i⟩).2.broker
      (InMemoryTransport.subscribe topic handler ⟨b, t, i⟩).2.self := by
  have hquiet : SiteEffect i (.subscribe i topic handler) b t b t :=
    .quiet (Kept.refl t) rfl (.inl rfl) rfl
  simp only [InMemoryTransport.subscribe, Exec.get_bind]
  split
  · exact hquiet
  · split
    · exact hquiet
    · split
      · exact hquiet
      · next hfree => exact .subscribed topic (by simpa using hfree) rfl

theorem purgeTopic_effect (topic : Topic) :
    SiteEffect i (.purgeTopic i topic) b t
      (InMemoryTransport.purgeTopic topic ⟨b, t, i⟩).2.broker
      (InMemoryTransport.purgeTopic topic ⟨b, t, i⟩).2.self := by
  simp only [InMemoryTransport.purgeTopic, Exec.get_bind]
  split
  · exact .quiet (Kept.refl t) rfl (.inl rfl) rfl
  · exact .purged topic rfl

theorem pumpTurn_effect (hidle : t.idle = true) :
    SiteEffect i (.pump i) b t (pumpTurn ⟨b, t, i⟩).2.broker (pumpTurn ⟨b, t, i⟩).2.self := by
  have hquiet : SiteEffect i (.pump i) b t b t := .quiet (Kept.refl t) rfl (.inl rfl) rfl
  have hhandling : t.handling = none := by
    simpa [idle] using (Bool.and_eq_true_iff.mp hidle).2
  simp only [pumpTurn, Exec.get_bind]
  split
  · exact hquiet
  · split
    · exact hquiet
    · next hhandler =>
        split
        · exact hquiet
        · next hempty =>
            rw [Exec.bind_apply, onBroker_apply]
            simp only [take, Exec.get_bind]
            cases hfind : b.find t.topic with
            | none => exact hquiet
            | some state =>
                cases hmessages : state.messages with
                | nil =>
                    simp only [hmessages]
                    exact hquiet
                | cons message rest =>
                    simp only [hmessages]
                    exact .delivered state message rest (by simpa using hhandler)
                      (by simpa using hempty) hhandling hfind hmessages
                      ⟨rfl, rfl, rfl, fun _ h => .inl h, rfl⟩ rfl rfl rfl

/-- The handler returned a final disposition. -/
theorem endPump_final {d : Disposition} (hd : d ≠ .deferred) {message : Held}
    (hhandling : t.handling = some message) :
    ∃ stats, (endPump (.returned d) ⟨b, t, i⟩).2 =
      ⟨(b.log (.resolved i message.sequence)).performed t.topic message d,
        { t with handling := none, outstanding := t.outstanding.erase message.sequence,
                 stats := stats }, i⟩ := by
  obtain ⟨r, stats, hperform⟩ := perform_apply i (b.log (.resolved i message.sequence))
    { t with handling := none, outstanding := t.outstanding.erase message.sequence }
    message hd
  have hreturns : (endPump (.returned d) ⟨b, t, i⟩).2 =
      (perform message d ⟨b.log (.resolved i message.sequence), { t with
        handling := none, outstanding := t.outstanding.erase message.sequence }, i⟩).2 := by
    cases d with
    | deferred => exact absurd rfl hd
    | ack => simp [endPump, hhandling, handlerReturns]
    | reject => simp [endPump, hhandling, handlerReturns]
    | requeue => simp [endPump, hhandling, handlerReturns]
  exact ⟨stats, by rw [hreturns, hperform]⟩

theorem endPump_effect (hcallable : t.callable = true) (outcome : HandlerOutcome) :
    SiteEffect i (.handlerReturns i outcome) b t (endPump outcome ⟨b, t, i⟩).2.broker
      (endPump outcome ⟨b, t, i⟩).2.self := by
  cases hhandling : t.handling with
  | none =>
      have hrun : (endPump outcome ⟨b, t, i⟩).2 = ⟨b, t, i⟩ := by simp [endPump, hhandling]
      have hback : t.putBack (.handlerReturns i outcome) = [] := by
        rcases outcome with d | e
        · cases d <;> simp [putBack, hhandling]
        · rfl
      rw [hrun]
      exact .quiet (Kept.refl t) rfl (.inl rfl) hback
  | some message =>
      have hfinal : ∀ d : Disposition, d ≠ .deferred → outcome = .returned d →
          SiteEffect i (.handlerReturns i outcome) b t (endPump outcome ⟨b, t, i⟩).2.broker
            (endPump outcome ⟨b, t, i⟩).2.self := by
        rintro d hd rfl
        obtain ⟨stats, hrun⟩ := endPump_final i b t hd hhandling
        rw [hrun]
        refine .handled message d hd hhandling ⟨rfl, rfl, rfl, fun _ h => .inl h, rfl⟩ rfl rfl ?_
        cases d <;> simp [putBack, hcallable, hhandling]
      cases outcome with
      | threw e =>
          have hrun : ∃ stats, (endPump (.threw e) ⟨b, t, i⟩).2 =
              ⟨b, { t with handling := none, stats := stats }, i⟩ := by
            refine ⟨{ t.stats with abandoned := t.stats.abandoned + 1 }, ?_⟩
            simp [endPump, hhandling, handlerReturns]
          obtain ⟨stats, hrun⟩ := hrun
          rw [hrun]
          exact .quiet ⟨rfl, rfl, rfl, fun _ h => .inl h, rfl⟩ rfl (.inr rfl) rfl
      | returned d =>
          cases d with
          | ack => exact hfinal .ack (by simp) rfl
          | reject => exact hfinal .reject (by simp) rfl
          | requeue => exact hfinal .requeue (by simp) rfl
          | deferred =>
              have hrun : (endPump (.returned .deferred) ⟨b, t, i⟩).2 =
                  ⟨b, { t with handling := none }, i⟩ := by
                simp [endPump, hhandling, handlerReturns]
              rw [hrun]
              exact .quiet ⟨rfl, rfl, rfl, fun _ h => .inl h, rfl⟩ rfl (.inr rfl) rfl

/-- `settle` carries out a final disposition. -/
theorem settle_final {tag : Nat} {d : Disposition} (hd : d ≠ .deferred) {message : Held}
    (hconnected : t.connected = true) (hmessage : t.outstanding[tag]? = some message) :
    ∃ stats, (InMemoryTransport.settle tag d ⟨b, t, i⟩).2 =
      ⟨(b.log (.resolved i tag)).performed t.topic message d,
        { t with outstanding := t.outstanding.erase tag, stats := stats }, i⟩ := by
  obtain ⟨r, stats, hperform⟩ := perform_apply i (b.log (.resolved i tag))
    { t with outstanding := t.outstanding.erase tag } message hd
  refine ⟨stats, ?_⟩
  simp only [InMemoryTransport.settle, Exec.get_bind]
  rw [if_neg (by simp [hconnected]), if_neg hd]
  simp only [hmessage, setSelf_bind, record_bind]
  rw [hperform]

theorem settle_effect (hcallable : t.callable = true) (tag : Nat) (d : Disposition) :
    SiteEffect i (.settle i tag d) b t (InMemoryTransport.settle tag d ⟨b, t, i⟩).2.broker
      (InMemoryTransport.settle tag d ⟨b, t, i⟩).2.self := by
  have hquiet : t.putBack (.settle i tag d) = [] → SiteEffect i (.settle i tag d) b t b t :=
    fun hback => .quiet (Kept.refl t) rfl (.inl rfl) hback
  by_cases hconnected : t.connected = false
  · have hrun : (InMemoryTransport.settle tag d ⟨b, t, i⟩).2 = ⟨b, t, i⟩ := by
      simp only [InMemoryTransport.settle, Exec.get_bind, if_pos hconnected]
      rfl
    rw [hrun]
    refine hquiet ?_
    cases d <;> simp [putBack, hconnected]
  · by_cases hd : d = .deferred
    · have hrun : (InMemoryTransport.settle tag d ⟨b, t, i⟩).2 = ⟨b, t, i⟩ := by
        simp only [InMemoryTransport.settle, Exec.get_bind, if_neg hconnected, if_pos hd]
        rfl
      rw [hrun, hd]
      exact .quiet (Kept.refl t) rfl (.inl rfl) rfl
    · have hconnected' : t.connected = true := Bool.eq_true_of_not_eq_false hconnected
      cases hmessage : t.outstanding[tag]? with
      | none =>
          have hrun : (InMemoryTransport.settle tag d ⟨b, t, i⟩).2 = ⟨b, t, i⟩ := by
            simp only [InMemoryTransport.settle, Exec.get_bind, if_neg hconnected, if_neg hd,
              hmessage]
            rfl
          rw [hrun]
          refine hquiet ?_
          cases d <;> simp [putBack, hmessage]
      | some message =>
          obtain ⟨stats, hrun⟩ := settle_final i b t hd hconnected' hmessage
          rw [hrun]
          refine .settled tag message d rfl hd hmessage ⟨rfl, rfl, rfl, fun _ h => .inl h, rfl⟩
            rfl rfl ?_
          cases d <;> simp [putBack, hcallable, hmessage, hconnected']

end Methods

/-! ## The system -/

/-- A call that its transport can take. -/
theorem System.call_of_may {α : Type} {s : System} {i : Nat} {t : InMemoryTransport}
    {may : InMemoryTransport → Bool} (x : Method α) (hlookup : s.transports[i]? = some t)
    (hmay : may t = true) : s.call i may x =
      ⟨(x ⟨s.broker, t, i⟩).2.broker, s.transports.set i (x ⟨s.broker, t, i⟩).2.self⟩ := by
  simp only [System.call, hlookup, hmay, if_true]

theorem System.call_effect {α : Type} {s : System} {a : Action} {i : Nat}
    {may : InMemoryTransport → Bool} {x : Method α} (haction : a.transport = some i)
    (hnot : ∀ t, may t = false → t.putBack a = [])
    (hsite : ∀ t, may t = true → SiteEffect i a s.broker t (x ⟨s.broker, t, i⟩).2.broker
      (x ⟨s.broker, t, i⟩).2.self) : Effect s a (s.call i may x) := by
  rw [System.call]
  cases hlookup : s.transports[i]? with
  | none =>
      refine .nothing fun j t hj ht => ?_
      obtain rfl : i = j := Option.some.inj (haction.symm.trans hj)
      rw [hlookup] at ht
      exact absurd ht (by simp)
  | some t =>
      cases hmay : may t with
      | true =>
          simp only [hmay, if_true]
          exact .site haction hlookup (hsite t hmay)
      | false =>
          simp only [hmay]
          refine .nothing fun j t' hj ht' => ?_
          obtain rfl : i = j := Option.some.inj (haction.symm.trans hj)
          obtain rfl : t = t' := Option.some.inj (hlookup.symm.trans ht')
          exact hnot t hmay

/-- Every action has one of the effects, and no other. -/
theorem System.step_effect (s : System) (a : Action) : Effect s a (s.step a) := by
  cases a with
  | create => exact .created rfl
  | connect i => exact call_effect rfl (fun _ _ => rfl) fun t _ => connect_effect i _ t
  | close i =>
      exact call_effect rfl (fun t h => by simp [putBack, h]) fun t h => close_effect i _ t h
  | destroy i =>
      exact call_effect rfl (fun t h => by simp [putBack, h]) fun t h => destroy_effect i _ t h
  | ensureTopic i topic options =>
      exact call_effect rfl (fun _ _ => rfl) fun t _ => beginEnsureTopic_effect i _ t topic options
  | ensureTopicSource i =>
      exact call_effect rfl (fun _ _ => rfl) fun t _ => endEnsureTopic_effect i _ t
  | send i topic payload options =>
      exact call_effect rfl (fun _ _ => rfl) fun t h => send_effect i _ t h topic payload options
  | subscribe i topic handler =>
      exact call_effect rfl (fun _ _ => rfl) fun t _ => subscribe_effect i _ t topic handler
  | purgeTopic i topic =>
      exact call_effect rfl (fun _ _ => rfl) fun t _ => purgeTopic_effect i _ t topic
  | pump i => exact call_effect rfl (fun _ _ => rfl) fun t h => pumpTurn_effect i _ t h
  | handlerReturns i outcome =>
      refine call_effect rfl (fun t h => ?_) fun t h => endPump_effect i _ t h outcome
      rcases outcome with d | e
      · cases d <;> simp [putBack, h]
      · rfl
  | settle i tag d =>
      refine call_effect rfl (fun t h => ?_) fun t h => settle_effect i _ t h tag d
      cases d <;> simp [putBack, h]

end Motus.InMemory
