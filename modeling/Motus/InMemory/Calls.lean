import Motus.InMemory.Provision

set_option autoImplicit false

/-!
# What a call leaves of its transport

`SiteEffect` says what a call does to the messages.  `CallEffect` says which call it
was and what it leaves of the transport that was called: what it holds, what it has
counted and whether it is connected.  Only `pump` delivers, only a handler that
leaves and `settle` resolve, and a transport is disconnected only with nothing
outstanding.
-/

namespace Motus.Transport.Stats

/-- The counters of messages received and of dispositions performed. -/
def tally (stats : Stats) : Nat × Nat × Nat × Nat :=
  (stats.received, stats.acksPerformed, stats.rejectsPerformed, stats.requeuesPerformed)

/-- One more disposition is performed. -/
def performed (stats : Stats) : Disposition → Stats
  | .ack => { stats with acksPerformed := stats.acksPerformed + 1 }
  | .reject => { stats with rejectsPerformed := stats.rejectsPerformed + 1 }
  | .requeue => { stats with requeuesPerformed := stats.requeuesPerformed + 1 }
  | .deferred => stats

end Motus.Transport.Stats

namespace Motus.InMemory

open Motus.Foundation Motus.Transport

namespace Broker

/-- What carrying out a disposition returns or throws. -/
def performs (b : Broker) (topic : Topic) (message : Held) : Disposition → Except Exn Unit
  | .reject => (deadLetter topic message b).1
  | _ => .ok ()

/-- When a disposition can be carried out. -/
theorem performs_eq_ok_iff {b : Broker} (hbacked : b.Backed) (topic : Topic) (message : Held)
    (d : Disposition) : b.performs topic message d = .ok () ↔
      (d = .reject → b.deadLetters topic = true →
        (b.find (deadLetterTopic topic)).isSome = true) := by
  cases d with
  | reject =>
      rw [performs, deadLetter, deadLetterLocked_eq_ok_iff hbacked]
      exact ⟨fun hready _ => hready, fun hready => hready rfl⟩
  | ack => exact ⟨fun _ heq => absurd heq (by simp), fun _ => rfl⟩
  | requeue => exact ⟨fun _ heq => absurd heq (by simp), fun _ => rfl⟩
  | deferred => exact ⟨fun _ heq => absurd heq (by simp), fun _ => rfl⟩

end Broker

namespace InMemoryTransport

/-- A disposition that was carried out is counted, one that threw is not. -/
def counted (t : InMemoryTransport) (result : Except Exn Unit) (d : Disposition) :
    InMemoryTransport :=
  match result with
  | .ok _ => { t with stats := t.stats.performed d }
  | .error _ => t

/-- The transport that has taken a message and calls its handler. -/
def taking (t : InMemoryTransport) (message : Held) : InMemoryTransport :=
  { t with
    stats := { t.stats with
      received := t.stats.received + 1
      bytesReceived := t.stats.bytesReceived + message.body.length }
    outstanding := t.outstanding.insertIfNew message.sequence message
    handling := some message }

/-- Nothing is delivered, resolved or counted, and the transport stays connected. -/
structure Steady (t t' : InMemoryTransport) : Prop where
  handling : t'.handling = t.handling
  outstanding : t'.outstanding = t.outstanding
  connected : t.connected = true → t'.connected = true
  topic : t'.topic = t.topic
  subscribed : t'.subscribed = t.subscribed
  handler : t'.handler = t.handler
  tally : t'.stats.tally = t.stats.tally

theorem Steady.refl (t : InMemoryTransport) : Steady t t := ⟨rfl, rfl, id, rfl, rfl, rfl, rfl⟩

section Counted

variable (t : InMemoryTransport) (result : Except Exn Unit) (d : Disposition)

@[simp] theorem counted_handling : (t.counted result d).handling = t.handling := by
  cases result <;> rfl

@[simp] theorem counted_outstanding : (t.counted result d).outstanding = t.outstanding := by
  cases result <;> rfl

@[simp] theorem counted_connected : (t.counted result d).connected = t.connected := by
  cases result <;> rfl

@[simp] theorem counted_topic : (t.counted result d).topic = t.topic := by
  cases result <;> rfl

@[simp] theorem counted_subscribed : (t.counted result d).subscribed = t.subscribed := by
  cases result <;> rfl

@[simp] theorem counted_handler : (t.counted result d).handler = t.handler := by
  cases result <;> rfl

@[simp] theorem counted_idle : (t.counted result d).idle = t.idle := by
  cases result <;> rfl

end Counted

/-! ## The methods that deliver or resolve -/

section Run

variable (i : Nat) (b : Broker) (t : InMemoryTransport)

theorem perform_run (message : Held) {d : Disposition} (hd : d ≠ .deferred) :
    perform message d ⟨b, t, i⟩ = (b.performs t.topic message d,
      ⟨b.performed t.topic message d, t.counted (b.performs t.topic message d) d, i⟩) := by
  cases d with
  | ack => rfl
  | requeue => rfl
  | deferred => exact absurd rfl hd
  | reject =>
      simp only [perform, Exec.get_bind, Broker.performs, Broker.performed]
      rw [Exec.bind_apply, onBroker_apply]
      rcases Broker.deadLetter t.topic message b with ⟨r, c⟩
      cases r with
      | ok => rfl
      | error e => rfl

/-- `settle` of a delivery that is outstanding. -/
theorem settle_run {tag : Nat} {d : Disposition} (hd : d ≠ .deferred) {message : Held}
    (hconnected : t.connected = true) (hmessage : t.outstanding[tag]? = some message) :
    InMemoryTransport.settle tag d ⟨b, t, i⟩ =
      ((b.log (.resolved i tag)).performs t.topic message d,
        ⟨(b.log (.resolved i tag)).performed t.topic message d,
          { t with outstanding := t.outstanding.erase tag }.counted
            ((b.log (.resolved i tag)).performs t.topic message d) d, i⟩) := by
  simp only [InMemoryTransport.settle, Exec.get_bind]
  rw [if_neg (by simp [hconnected]), if_neg hd]
  simp only [hmessage, setSelf_bind, record_bind]
  rw [perform_run _ _ _ message hd]

/-- `settle` of anything else throws and changes nothing. -/
theorem settle_run_none {tag : Nat} {d : Disposition} (hd : d ≠ .deferred)
    (hnone : t.connected = true → t.outstanding[tag]? = none) :
    ∃ what, InMemoryTransport.settle tag d ⟨b, t, i⟩ = (.error (.logicError what), ⟨b, t, i⟩) := by
  simp only [InMemoryTransport.settle, Exec.get_bind]
  by_cases hconnected : t.connected = false
  · rw [if_pos hconnected]
    exact ⟨_, rfl⟩
  · rw [if_neg hconnected, if_neg hd]
    simp only [hnone (Bool.eq_true_of_not_eq_false hconnected)]
    exact ⟨_, rfl⟩

theorem settle_run_deferred (tag : Nat) :
    ∃ e, InMemoryTransport.settle tag .deferred ⟨b, t, i⟩ = (.error e, ⟨b, t, i⟩) := by
  simp only [InMemoryTransport.settle, Exec.get_bind]
  split
  · exact ⟨_, rfl⟩
  · exact ⟨_, rfl⟩

/-- `settle` leaves the transport callable. -/
theorem settle_idle (tag : Nat) (d : Disposition) :
    (InMemoryTransport.settle tag d ⟨b, t, i⟩).2.self.idle = t.idle := by
  by_cases hd : d = .deferred
  · subst hd
    obtain ⟨e, hrun⟩ := settle_run_deferred i b t tag
    rw [hrun]
  · by_cases hnone : t.connected = true → t.outstanding[tag]? = none
    · obtain ⟨what, hrun⟩ := settle_run_none i b t hd hnone
      rw [hrun]
    · obtain ⟨hconnected, hsome⟩ := Classical.not_imp.mp hnone
      obtain ⟨message, hmessage⟩ := Option.ne_none_iff_exists'.mp hsome
      rw [settle_run i b t hd hconnected hmessage]
      exact counted_idle _ _ _

/-- The handler returned a final disposition. -/
theorem endPump_run {d : Disposition} (hd : d ≠ .deferred) {message : Held}
    (hhandling : t.handling = some message) :
    endPump (.returned d) ⟨b, t, i⟩ =
      ((b.log (.resolved i message.sequence)).performs t.topic message d,
        ⟨(b.log (.resolved i message.sequence)).performed t.topic message d,
          { t with handling := none, outstanding := t.outstanding.erase message.sequence }.counted
            ((b.log (.resolved i message.sequence)).performs t.topic message d) d, i⟩) := by
  have hperform := perform_run i (b.log (.resolved i message.sequence))
    { t with handling := none, outstanding := t.outstanding.erase message.sequence } message hd
  have hreturns : endPump (.returned d) ⟨b, t, i⟩ =
      (do let _ ← (do perform message d; pure true : Method Bool); pure () : Method Unit)
        ⟨b.log (.resolved i message.sequence),
          { t with handling := none, outstanding := t.outstanding.erase message.sequence }, i⟩ := by
    simp only [endPump, Exec.get_bind, hhandling]
    cases d with
    | deferred => exact absurd rfl hd
    | ack => rfl
    | reject => rfl
    | requeue => rfl
  rw [hreturns, Exec.bind_apply, Exec.bind_apply, hperform]
  cases (b.log (.resolved i message.sequence)).performs t.topic message d <;> rfl

theorem endPump_run_deferred {message : Held} (hhandling : t.handling = some message) :
    endPump (.returned .deferred) ⟨b, t, i⟩ = (.ok (), ⟨b, { t with handling := none }, i⟩) := by
  simp [endPump, hhandling, handlerReturns]

theorem endPump_run_threw {message : Held} (what : String)
    (hhandling : t.handling = some message) :
    endPump (.threw what) ⟨b, t, i⟩ = (.error (.handler what),
      ⟨b, { t with handling := none, stats.abandoned := t.stats.abandoned + 1 }, i⟩) := by
  simp [endPump, hhandling, handlerReturns, Except.map]

theorem endPump_run_none (outcome : HandlerOutcome) (hhandling : t.handling = none) :
    endPump outcome ⟨b, t, i⟩ = (.ok (), ⟨b, t, i⟩) := by
  simp [endPump, hhandling]

/-- A turn of `pump` delivers the head of the topic, or leaves the transport alone. -/
theorem pumpTurn_run :
    (pumpTurn ⟨b, t, i⟩).2 = ⟨b, t, i⟩ ∧
        (∀ delivery, (pumpTurn ⟨b, t, i⟩).1 ≠ .ok (.calling delivery)) ∨
      t.connected = true ∧ t.handler = true ∧ t.outstanding.isEmpty = true ∧
        ∃ state message rest, b.find t.topic = some state ∧ state.messages = message :: rest ∧
          pumpTurn ⟨b, t, i⟩ =
            (.ok (.calling ⟨message.body, message.redelivered, message.sequence⟩),
              ⟨b.handedOut i t.topic state message rest, t.taking message, i⟩) := by
  simp only [pumpTurn, Exec.get_bind]
  split
  · exact .inl ⟨rfl, fun _ => by simp⟩
  · next hconnected =>
      split
      · exact .inl ⟨rfl, fun _ => by simp⟩
      · next hhandler =>
          split
          · exact .inl ⟨rfl, fun _ => by simp⟩
          · next hempty =>
              rw [Exec.bind_apply, onBroker_apply]
              simp only [Broker.take, Exec.get_bind]
              cases hfind : b.find t.topic with
              | none => exact .inl ⟨rfl, fun _ => by simp⟩
              | some state =>
                  cases hmessages : state.messages with
                  | nil =>
                      simp only [hmessages]
                      exact .inl ⟨rfl, fun _ => by simp⟩
                  | cons message rest =>
                      simp only [hmessages]
                      exact .inr ⟨by simpa using hconnected, by simpa using hhandler,
                        by simpa using hempty, state, message, rest, rfl, hmessages, rfl⟩

end Run

/-! ## The other methods -/

section Other

variable (i : Nat) (b : Broker) (t : InMemoryTransport)

theorem steady_connect : Steady t (connect ⟨b, t, i⟩).2.self :=
  ⟨rfl, rfl, fun _ => rfl, rfl, rfl, rfl, rfl⟩

theorem steady_beginEnsureTopic (topic : Topic) (options : TopicOptions) :
    Steady t (beginEnsureTopic topic options ⟨b, t, i⟩).2.self := by
  have hdeclaring : ∀ d, Steady t { t with declaring := d } :=
    fun d => ⟨rfl, rfl, id, rfl, rfl, rfl, rfl⟩
  simp only [beginEnsureTopic, ensureTopicForensic, Exec.get_bind, bind_assoc]
  split
  · exact .refl t
  · split
    · rw [Exec.bind_apply, onBroker_apply]
      rcases Broker.ensureTopic (deadLetterTopic topic) (forensicTopicOptions topic) b
        with ⟨r, c⟩
      cases r with
      | ok => exact hdeclaring _
      | error e => exact .refl t
    · exact hdeclaring _

theorem steady_endEnsureTopic : Steady t (endEnsureTopic ⟨b, t, i⟩).2.self := by
  unfold endEnsureTopic
  rw [Exec.get_bind]
  cases t.declaring with
  | none => exact .refl t
  | some declaration => exact ⟨rfl, rfl, id, rfl, rfl, rfl, rfl⟩

theorem steady_send (topic : Topic) (payload : Bytes) (options : SendOptions) :
    Steady t (InMemoryTransport.send topic payload options ⟨b, t, i⟩).2.self := by
  unfold InMemoryTransport.send
  rw [Exec.get_bind]
  split
  · exact .refl t
  · split
    · exact .refl t
    · rw [Exec.bind_apply, onBroker_apply]
      rcases Broker.publish topic payload options.route b with ⟨r, c⟩
      cases r with
      | ok => exact ⟨rfl, rfl, id, rfl, rfl, rfl, rfl⟩
      | error e => exact .refl t

theorem steady_purgeTopic (topic : Topic) :
    Steady t (InMemoryTransport.purgeTopic topic ⟨b, t, i⟩).2.self := by
  unfold InMemoryTransport.purgeTopic
  rw [Exec.get_bind]
  split
  · exact .refl t
  · exact .refl t

/-- `subscribe` either throws or takes a connected transport that is free. -/
theorem subscribe_run (topic : Topic) (handler : Bool) :
    (∃ e, InMemoryTransport.subscribe topic handler ⟨b, t, i⟩ = (.error e, ⟨b, t, i⟩)) ∨
      handler = true ∧ t.connected = true ∧ t.subscribed = false ∧
        InMemoryTransport.subscribe topic handler ⟨b, t, i⟩ =
          (.ok (), ⟨b, { t with topic := topic, handler := true, subscribed := true }, i⟩) := by
  simp only [InMemoryTransport.subscribe, Exec.get_bind]
  split
  · exact .inl ⟨_, rfl⟩
  · next hconnected =>
      split
      · exact .inl ⟨_, rfl⟩
      · next hhandler =>
          split
          · exact .inl ⟨_, rfl⟩
          · next hfree =>
              exact .inr ⟨by simpa using hhandler, by simpa using hconnected,
                by simpa using hfree, rfl⟩

/-- What `close` and the destructor leave. -/
structure Gone (t t' : InMemoryTransport) : Prop where
  handling : t'.handling = t.handling
  outstanding : t'.outstanding.isEmpty = true
  subscribed : t'.subscribed = false
  handler : t'.handler = false
  stats : t'.stats = t.stats

theorem gone_close : Gone t (InMemoryTransport.close ⟨b, t, i⟩).2.self := by
  obtain ⟨outstanding, hempty, hreturn⟩ := returnOutstanding_apply i b t
  unfold InMemoryTransport.close
  rw [Exec.bind_ok hreturn]
  exact ⟨rfl, hempty, rfl, rfl, rfl⟩

theorem gone_destroy : Gone t (destroy ⟨b, t, i⟩).2.self := by
  obtain ⟨outstanding, hempty, hreturn⟩ := returnOutstanding_apply i b t
  have hcaught : (tryCatch returnOutstanding fun _ => pure () : Method Unit) ⟨b, t, i⟩ =
      (.ok (), ⟨b.putBackAll i t.topic t.unresolved, { t with outstanding := outstanding }, i⟩) := by
    rw [Exec.tryCatch_apply, hreturn]
  unfold destroy
  rw [Exec.bind_ok hcaught]
  exact ⟨rfl, hempty, rfl, rfl, rfl⟩

end Other

/-! ## Every action -/

/-- What an action leaves of transport `i`. -/
inductive CallEffect (i : Nat) (a : Action) (b : Broker) (t : InMemoryTransport) :
    InMemoryTransport → Prop where
  | steady {t' : InMemoryTransport} (hsteady : Steady t t') : CallEffect i a b t t'
  | subscribed (topic : Topic) (haction : a = .subscribe i topic true)
      (hconnected : t.connected = true) (hfree : t.subscribed = false) :
      CallEffect i a b t { t with topic := topic, handler := true, subscribed := true }
  | left {t' : InMemoryTransport} (haction : a = .close i ∨ a = .destroy i)
      (hidle : t.idle = true) (hgone : Gone t t') : CallEffect i a b t t'
  | delivered (haction : a = .pump i) (hidle : t.idle = true) (hconnected : t.connected = true)
      (hhandler : t.handler = true) (hempty : t.outstanding.isEmpty = true) (state : TopicState)
      (message : Held) (rest : List Held) (hfind : b.find t.topic = some state)
      (hmessages : state.messages = message :: rest) : CallEffect i a b t (t.taking message)
  | threw (what : String) (message : Held) (haction : a = .handlerReturns i (.threw what))
      (hcallable : t.callable = true) (hmessage : t.handling = some message) :
      CallEffect i a b t
        { t with handling := none, stats.abandoned := t.stats.abandoned + 1 }
  | deferred (message : Held) (haction : a = .handlerReturns i (.returned .deferred))
      (hcallable : t.callable = true) (hmessage : t.handling = some message) :
      CallEffect i a b t { t with handling := none }
  | handled (message : Held) (d : Disposition) (hd : d ≠ .deferred)
      (haction : a = .handlerReturns i (.returned d)) (hcallable : t.callable = true)
      (hmessage : t.handling = some message) :
      CallEffect i a b t
        ({ t with handling := none, outstanding := t.outstanding.erase message.sequence }.counted
          ((b.log (.resolved i message.sequence)).performs t.topic message d) d)
  | settled (tag : Nat) (message : Held) (d : Disposition) (hd : d ≠ .deferred)
      (haction : a = .settle i tag d) (hcallable : t.callable = true)
      (hconnected : t.connected = true) (hmessage : t.outstanding[tag]? = some message) :
      CallEffect i a b t
        ({ t with outstanding := t.outstanding.erase tag }.counted
          ((b.log (.resolved i tag)).performs t.topic message d) d)

section Effect

variable (i : Nat) (b : Broker) (t : InMemoryTransport)

theorem callEffect_subscribe (topic : Topic) (handler : Bool) :
    CallEffect i (.subscribe i topic handler) b t
      (InMemoryTransport.subscribe topic handler ⟨b, t, i⟩).2.self := by
  rcases subscribe_run i b t topic handler with ⟨e, hrun⟩ | ⟨rfl, hconnected, hfree, hrun⟩
  · rw [hrun]
    exact .steady (.refl t)
  · rw [hrun]
    exact .subscribed topic rfl hconnected hfree

theorem callEffect_pump (hidle : t.idle = true) :
    CallEffect i (.pump i) b t (pumpTurn ⟨b, t, i⟩).2.self := by
  rcases pumpTurn_run i b t with
    ⟨hsame, -⟩ | ⟨hconnected, hhandler, hempty, state, message, rest, hfind, hmessages, hrun⟩
  · rw [hsame]
    exact .steady (.refl t)
  · rw [hrun]
    exact .delivered rfl hidle hconnected hhandler hempty state message rest hfind hmessages

theorem callEffect_endPump (hcallable : t.callable = true) (outcome : HandlerOutcome) :
    CallEffect i (.handlerReturns i outcome) b t (endPump outcome ⟨b, t, i⟩).2.self := by
  cases hhandling : t.handling with
  | none =>
      rw [endPump_run_none i b t outcome hhandling]
      exact .steady (.refl t)
  | some message =>
      cases outcome with
      | threw what =>
          rw [endPump_run_threw i b t what hhandling]
          exact .threw what message rfl hcallable hhandling
      | returned d =>
          by_cases hd : d = .deferred
          · subst hd
            rw [endPump_run_deferred i b t hhandling]
            exact .deferred message rfl hcallable hhandling
          · rw [endPump_run i b t hd hhandling]
            exact .handled message d hd rfl hcallable hhandling

theorem callEffect_settle (hcallable : t.callable = true) (tag : Nat) (d : Disposition) :
    CallEffect i (.settle i tag d) b t (InMemoryTransport.settle tag d ⟨b, t, i⟩).2.self := by
  by_cases hd : d = .deferred
  · subst hd
    obtain ⟨e, hrun⟩ := settle_run_deferred i b t tag
    rw [hrun]
    exact .steady (.refl t)
  · by_cases hnone : t.connected = true → t.outstanding[tag]? = none
    · obtain ⟨what, hrun⟩ := settle_run_none i b t hd hnone
      rw [hrun]
      exact .steady (.refl t)
    · obtain ⟨hconnected, hsome⟩ := Classical.not_imp.mp hnone
      obtain ⟨message, hmessage⟩ := Option.ne_none_iff_exists'.mp hsome
      rw [settle_run i b t hd hconnected hmessage]
      exact .settled tag message d hd rfl hcallable hconnected hmessage

end Effect

end InMemoryTransport

open InMemoryTransport

section

variable {i : Nat} {a : Action} {b : Broker} {t t' : InMemoryTransport}

/-- Only `pump` starts a handler. -/
theorem InMemoryTransport.CallEffect.handling (h : CallEffect i a b t t') {message : Held}
    (hmessage : t'.handling = some message) :
    t.handling = some message ∨ a = .pump i ∧ t.handler = true := by
  cases h with
  | steady hsteady => exact .inl (hsteady.handling ▸ hmessage)
  | subscribed topic => exact .inl hmessage
  | left haction hidle hgone => exact .inl (hgone.handling ▸ hmessage)
  | delivered haction hidle hconnected hhandler => exact .inr ⟨haction, hhandler⟩
  | threw what m => exact absurd hmessage (by simp)
  | deferred m => exact absurd hmessage (by simp)
  | handled m d => exact absurd hmessage (by simp)
  | settled tag m d =>
      rw [counted_handling] at hmessage
      exact .inl hmessage

/-- What the calls that subscribe, deliver, resolve or disconnect are not. -/
def Action.isQuiet : Action → Bool
  | .create | .connect _ | .ensureTopic .. | .ensureTopicSource _ | .send ..
  | .purgeTopic .. => true
  | _ => false

theorem InMemoryTransport.CallEffect.steady_of_quiet (h : CallEffect i a b t t')
    (hquiet : a.isQuiet = true) : t.Steady t' := by
  cases h with
  | steady hsteady => exact hsteady
  | subscribed topic haction => subst haction; exact absurd hquiet Bool.false_ne_true
  | left haction => rcases haction with rfl | rfl <;> exact absurd hquiet Bool.false_ne_true
  | delivered haction => subst haction; exact absurd hquiet Bool.false_ne_true
  | threw what m haction => subst haction; exact absurd hquiet Bool.false_ne_true
  | deferred m haction => subst haction; exact absurd hquiet Bool.false_ne_true
  | handled m d hd haction => subst haction; exact absurd hquiet Bool.false_ne_true
  | settled tag m d hd haction => subst haction; exact absurd hquiet Bool.false_ne_true

/-- What is outstanding was so before, or has just been taken by `pump`. -/
theorem InMemoryTransport.CallEffect.outstanding (h : CallEffect i a b t t') {tag : Nat}
    {message : Held} (hmessage : t'.outstanding[tag]? = some message) :
    t.outstanding[tag]? = some message ∨
      a = .pump i ∧ t'.handling = some message ∧ message.sequence = tag := by
  have herased : ∀ n : Nat, (t.outstanding.erase n)[tag]? = some message →
      t.outstanding[tag]? = some message := by
    intro n hn
    rw [getElem?_erase] at hn
    split at hn
    · exact absurd hn (by simp)
    · exact hn
  cases h with
  | steady hsteady => exact .inl (hsteady.outstanding ▸ hmessage)
  | subscribed topic => exact .inl hmessage
  | left haction hidle hgone =>
      rw [getElem?_of_isEmpty hgone.outstanding] at hmessage
      exact absurd hmessage (by simp)
  | delivered haction hidle hconnected hhandler hempty state head rest =>
      have htaken : (t.outstanding.insertIfNew head.sequence head)[tag]? = some message := hmessage
      rw [getElem?_insertIfNew_of_isEmpty hempty] at htaken
      split at htaken
      · next heq =>
          obtain rfl := Option.some.inj htaken
          exact .inr ⟨haction, rfl, heq.symm⟩
      · exact absurd htaken (by simp)
  | threw what m => exact .inl hmessage
  | deferred m => exact .inl hmessage
  | handled m d =>
      rw [counted_outstanding] at hmessage
      exact .inl (herased _ hmessage)
  | settled n m d =>
      rw [counted_outstanding] at hmessage
      exact .inl (herased n hmessage)

end

namespace System

/-- A call that its transport cannot take changes nothing. -/
theorem call_of_not {α : Type} {s : System} {i : Nat} {may : InMemoryTransport → Bool}
    {x : Method α} {t : InMemoryTransport} (hlookup : s.transports[i]? = some t)
    (hmay : may t = false) : s.call i may x = s := by
  simp only [System.call, hlookup, hmay]
  rfl

/-- A call leaves every transport as it was but the one it is made on. -/
theorem call_lookup {α : Type} {s : System} {i j : Nat} {may : InMemoryTransport → Bool}
    {x : Method α} {t' : InMemoryTransport} (h : (s.call j may x).transports[i]? = some t') :
    s.transports[i]? = some t' ∨ j = i ∧ ∃ t, s.transports[i]? = some t ∧ may t = true ∧
      t' = (x ⟨s.broker, t, i⟩).2.self := by
  unfold System.call at h
  cases hlookup : s.transports[j]? with
  | none =>
      rw [hlookup] at h
      exact .inl h
  | some t =>
      rw [hlookup] at h
      dsimp only at h
      split at h
      · next hmay =>
          rw [List.getElem?_set] at h
          split at h
          · next heq =>
              subst heq
              split at h
              · exact .inr ⟨rfl, t, hlookup, hmay, (Option.some.inj h).symm⟩
              · exact absurd h (by simp)
          · exact .inl h
      · exact .inl h

/-- An action of one transport leaves the others as they were. -/
theorem step_lookup_of_ne {s : System} {a : Action} {i : Nat} {t : InMemoryTransport}
    (hne : a.transport ≠ some i) (ht : s.transports[i]? = some t) :
    (s.step a).transports[i]? = some t := by
  have hcall : ∀ {α : Type} {j : Nat} {may : InMemoryTransport → Bool} {x : Method α},
      some j ≠ some i → (s.call j may x).transports[i]? = some t := by
    intro α j may x hj
    unfold System.call
    cases s.transports[j]? with
    | none => exact ht
    | some u =>
        dsimp only
        split
        · rw [List.getElem?_set_ne fun heq => hj (congrArg some heq)]
          exact ht
        · exact ht
  cases a with
  | create =>
      obtain ⟨hlt, -⟩ := List.getElem?_eq_some_iff.mp ht
      exact (List.getElem?_append_left hlt).trans ht
  | _ => exact hcall hne

/-- What an action leaves of a transport: it is new, or was there before. -/
theorem step_call (s : System) (a : Action) {i : Nat} {t' : InMemoryTransport}
    (h : (s.step a).transports[i]? = some t') :
    (s.transports[i]? = none ∧ t' = {}) ∨
      ∃ t, s.transports[i]? = some t ∧ CallEffect i a s.broker t t' := by
  -- an action of this transport has its effect, one of another has none
  have hcall : ∀ {α : Type} {j : Nat} {may : InMemoryTransport → Bool} {x : Method α},
      (s.call j may x).transports[i]? = some t' →
      (j = i → ∀ t, may t = true → CallEffect i a s.broker t (x ⟨s.broker, t, i⟩).2.self) →
      (s.transports[i]? = none ∧ t' = {}) ∨
        ∃ t, s.transports[i]? = some t ∧ CallEffect i a s.broker t t' := by
    intro α j may x hlookup heffect
    rcases call_lookup hlookup with hsame | ⟨rfl, t, hbefore, hmay, rfl⟩
    · exact .inr ⟨t', hsame, .steady (.refl t')⟩
    · exact .inr ⟨t, hbefore, heffect rfl t hmay⟩
  cases a with
  | create =>
      by_cases hlt : i < s.transports.length
      · rw [System.step, List.getElem?_append_left hlt] at h
        exact .inr ⟨t', h, .steady (.refl t')⟩
      · rw [System.step, List.getElem?_append_right (Nat.le_of_not_lt hlt)] at h
        have hmem := List.mem_of_getElem? h
        exact .inl ⟨List.getElem?_eq_none (Nat.le_of_not_lt hlt), List.mem_singleton.mp hmem⟩
  | connect j => exact hcall h fun _ t _ => .steady (steady_connect i s.broker t)
  | close j =>
      exact hcall h fun heq t hidle => .left (.inl (by rw [heq])) hidle (gone_close i s.broker t)
  | destroy j =>
      exact hcall h fun heq t hidle => .left (.inr (by rw [heq])) hidle (gone_destroy i s.broker t)
  | ensureTopic j topic options =>
      exact hcall h fun _ t _ => .steady (steady_beginEnsureTopic i s.broker t topic options)
  | ensureTopicSource j =>
      exact hcall h fun _ t _ => .steady (steady_endEnsureTopic i s.broker t)
  | send j topic payload options =>
      exact hcall h fun _ t _ => .steady (steady_send i s.broker t topic payload options)
  | subscribe j topic handler =>
      refine hcall h fun heq t _ => ?_
      subst heq
      exact callEffect_subscribe j s.broker t topic handler
  | purgeTopic j topic =>
      exact hcall h fun _ t _ => .steady (steady_purgeTopic i s.broker t topic)
  | pump j =>
      refine hcall h fun heq t hidle => ?_
      subst heq
      exact callEffect_pump j s.broker t hidle
  | handlerReturns j outcome =>
      refine hcall h fun heq t hcallable => ?_
      subst heq
      exact callEffect_endPump j s.broker t hcallable outcome
  | settle j tag d =>
      refine hcall h fun heq t hcallable => ?_
      subst heq
      exact callEffect_settle j s.broker t hcallable tag d

/-- A transport that was there has been called, or left alone. -/
theorem step_lookup {s : System} (a : Action) {i : Nat} {t : InMemoryTransport}
    (ht : s.transports[i]? = some t) :
    ∃ t', (s.step a).transports[i]? = some t' ∧ CallEffect i a s.broker t t' := by
  have hlength : s.transports.length ≤ (s.step a).transports.length := by
    have heffect := step_effect s a
    generalize s.step a = s' at heffect ⊢
    cases heffect with
    | nothing => exact Nat.le_refl _
    | created => rw [List.length_append]; exact Nat.le_add_right _ _
    | site => rw [List.length_set]
  obtain ⟨hlt, -⟩ := List.getElem?_eq_some_iff.mp ht
  obtain ⟨t', ht'⟩ : ∃ t', (s.step a).transports[i]? = some t' :=
    ⟨_, List.getElem?_eq_getElem (Nat.lt_of_lt_of_le hlt hlength)⟩
  rcases s.step_call a ht' with ⟨hnone, -⟩ | ⟨u, hu, heffect⟩
  · rw [ht] at hnone
    exact absurd hnone (by simp)
  · obtain rfl := Option.some.inj (ht.symm.trans hu)
    exact ⟨t', ht', heffect⟩

/-- The delivery whose handler transport `i` is running. -/
def running (s : System) (i : Nat) : Option Held := s.transports[i]?.bind (·.handling)

theorem running_of_lookup {s : System} {i : Nat} {t : InMemoryTransport}
    (h : s.transports[i]? = some t) : s.running i = t.handling := by
  rw [running, h, Option.bind_some]

/-- Whoever has something outstanding is connected. -/
def Attached (s : System) : Prop :=
  ∀ (i : Nat) (t : InMemoryTransport), s.transports[i]? = some t →
    t.outstanding.isEmpty = false → t.connected = true

theorem attached_init : Attached machine.init := fun _ _ h => absurd h (by simp [machine])

theorem Attached.step {s : System} (h : Attached s) (a : Action) : Attached (s.step a) := by
  intro i t' ht' hsome
  rcases step_call s a ht' with ⟨-, rfl⟩ | ⟨t, ht, heffect⟩
  · exact absurd hsome (by simp)
  · cases heffect with
    | steady hsteady =>
        rw [hsteady.outstanding] at hsome
        exact hsteady.connected (h i t ht hsome)
    | subscribed topic haction hconnected => exact hconnected
    | left haction hidle hgone =>
        rw [hgone.outstanding] at hsome
        exact absurd hsome (by simp)
    | delivered haction hidle hconnected => exact hconnected
    | threw what message => exact h i t ht hsome
    | deferred message => exact h i t ht hsome
    | handled message d =>
        rw [counted_connected]
        refine h i t ht (Bool.eq_false_iff.mpr fun hempty => ?_)
        rw [counted_outstanding] at hsome
        rw [isEmpty_erase_of_isEmpty hempty] at hsome
        exact absurd hsome (by simp)
    | settled tag message d hd haction hcallable hconnected =>
        rw [counted_connected]
        exact hconnected

end System

end Motus.InMemory
