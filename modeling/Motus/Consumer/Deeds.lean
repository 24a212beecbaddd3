import Motus.Consumer.Retries

set_option autoImplicit false

/-!
# What a piece of work amounts to

`Deed` lists the calls that a piece of work makes on the transports and the notes it
adds to the log, and `act_deed` shows that there is no other.  What holds of the system
and the log together is proved by cases on it.
-/

namespace Motus.Consumer

open Motus.Foundation Motus.Transport Motus.InMemory InMemoryTransport Broker

/-- The call declares a topic or subscribes it. -/
def declares : Action → Bool
  | .ensureTopic .. | .ensureTopicSource _ | .subscribe .. => true
  | _ => false

/-- The ending of the handler, if it is called with the message. -/
def calledWith (message : Held) (ending : HandlerEnd) : Option HandlerEnd :=
  match decode message.body with
  | .ok _ => some ending
  | .error _ => none

theorem calledWith_eq_none_iff {message : Held} {ending : HandlerEnd} :
    calledWith message ending = none ↔ ∀ decoded, decode message.body ≠ .ok decoded := by
  unfold calledWith
  cases decode message.body with
  | ok decoded => exact iff_of_false (by simp) fun hnot => hnot decoded rfl
  | error failure => exact iff_of_true rfl fun decoded => by simp

namespace Workers

/-- A piece of work, the calls it makes and the notes it adds. -/
inductive Deed (w : Workers) : Work → List Action → List Note → Prop where
  /-- no transport is called -/
  | apart {a : Work} : Deed w a [] []
  /-- a call that no Consumer makes -/
  | outside {b : Action} (hmay : w.mayCall b = true) : Deed w (.call b) [b] []
  /-- a Consumer declares and subscribes its topic -/
  | declared {a : Work} {i : Nat} {c : Consumer} {calls : List Action}
      (hc : w.consumers i = some c)
      (hcalls : ∀ b ∈ calls, declares b = true ∧ b.transport = some i) : Deed w a calls []
  | settled {i : Nat} {c : Consumer} {t : InMemoryTransport} {handle : Nat} {d : Disposition}
      (hc : w.consumers i = some c) (ht : w.system.transports[i]? = some t)
      (hphase : c.phase = .settling handle d) : Deed w (.settle i) [.settle i handle d] []
  | delivered {i : Nat} {c : Consumer} {t : InMemoryTransport} {state : TopicState}
      {message : Held} {rest : List Held} (hc : w.consumers i = some c)
      (ht : w.system.transports[i]? = some t) (hempty : t.outstanding.isEmpty = true)
      (hfind : w.system.broker.find t.topic = some state)
      (hmessages : state.messages = message :: rest)
      (hstep : w.system.step (.pump i) = ⟨w.system.broker.handedOut i t.topic state message rest,
        w.system.transports.set i (t.taking message)⟩) :
      Deed w (.pump i) [.pump i] (begun t.topic message)
  /-- what the handler threw escapes the lambda -/
  | escaped {i : Nat} {ending : HandlerEnd} {c : Consumer} {t : InMemoryTransport}
      {message : Held} {what : String} (hc : w.consumers i = some c)
      (ht : w.system.transports[i]? = some t) (hmessage : t.handling = some message)
      (hconcludes : Concludes c message ending = .error what) :
      Deed w (.handlerEnds i ending) [.handlerReturns i (.threw what)] []
  | concluded {i : Nat} {ending : HandlerEnd} {c : Consumer} {t : InMemoryTransport}
      {message : Held} {d : Disposition} (hc : w.consumers i = some c)
      (ht : w.system.transports[i]? = some t) (hcallable : t.callable = true)
      (hmessage : t.handling = some message) (hconcludes : Concludes c message ending = .ok d) :
      Deed w (.handlerEnds i ending) [.handlerReturns i (.returned d)]
        [.concluded t.topic message (calledWith message ending) d]

/-- The deed that leads from one state to another. -/
def Does (w : Workers) (a : Work) (w' : Workers) : Prop :=
  ∃ calls notes, w.Deed a calls notes ∧ w'.system = System.machine.runFrom w.system calls ∧
    w'.log = w.log ++ notes

section Act

variable {w : Workers} {a : Work}

theorem Does.apart {w' : Workers} (hsystem : w'.system = w.system) (hlog : w'.log = w.log) :
    w.Does a w' := ⟨[], [], .apart, hsystem, by rw [hlog, List.append_nil]⟩

theorem byConsumer_does {i : Nat} {phase : Consumer → InMemoryTransport → Bool}
    {f : Consumer → InMemoryTransport → Workers}
    (hf : ∀ c t, w.consumers i = some c → w.system.transports[i]? = some t → phase c t = true →
      w.Does a (f c t)) : w.Does a (w.byConsumer i phase f) := by
  unfold byConsumer
  split
  · next c t hc ht =>
      split
      · next hphase => exact hf c t hc ht hphase
      · exact .apart rfl rfl
  · exact .apart rfl rfl

/-- A Consumer that is put back makes declarations only. -/
theorem Does.declared {i : Nat} {c : Consumer} (hc : w.consumers i = some c)
    (calls : List Action) (hcalls : ∀ b ∈ calls, declares b = true ∧ b.transport = some i)
    (c' : Consumer) : w.Does a (w.put (System.machine.runFrom w.system calls) i c') :=
  ⟨calls, [], .declared hc hcalls, rfl, (List.append_nil _).symm⟩

theorem does_start {i : Nat} {c : Consumer} {t : InMemoryTransport} {topic : Topic}
    {options : TopicOptions} {allowAsymmetric : Bool} (hc : w.consumers i = some c) :
    w.Does a (w.start i topic options allowAsymmetric c t) := by
  have hdeclares : ∀ c' : Consumer,
      w.Does a (w.put (w.system.step (.ensureTopic i topic options)) i c') :=
    .declared hc [.ensureTopic i topic options] (by simp [declares, Action.transport])
  unfold start
  split
  · exact .apart rfl rfl
  · dsimp only
    split
    · exact hdeclares _
    · exact hdeclares _

theorem does_startSubscribe {i : Nat} {c : Consumer} {t : InMemoryTransport}
    (hc : w.consumers i = some c) : w.Does a (w.startSubscribe i c t) := by
  unfold startSubscribe
  dsimp only
  split
  · next topic _ _ _ =>
      exact .declared hc [.ensureTopicSource i, .subscribe i topic true]
        (by simp [declares, Action.transport]) _
  · exact .declared hc [.ensureTopicSource i] (by simp [declares, Action.transport]) _

theorem does_settle {i : Nat} {c : Consumer} {t : InMemoryTransport}
    (hc : w.consumers i = some c) (ht : w.system.transports[i]? = some t) :
    w.Does (.settle i) (w.settle i c t) := by
  unfold settle
  cases hphase : c.phase with
  | settling handle d =>
      have hsettles : ∀ c' : Consumer,
          w.Does (.settle i) (w.put (w.system.step (.settle i handle d)) i c') := fun c' =>
        ⟨[.settle i handle d], [], .settled hc ht hphase, rfl, (List.append_nil _).symm⟩
      dsimp only
      split
      · exact hsettles _
      · exact hsettles _
  | _ => exact .apart rfl rfl

/-- A turn of `pump` takes nothing, or the head of the topic of its transport. -/
theorem does_pump {i : Nat} {c : Consumer} {t : InMemoryTransport}
    (hc : w.consumers i = some c) (ht : w.system.transports[i]? = some t)
    (hidle : t.idle = true) : w.Does (.pump i) (w.pump i c t) := by
  have hstep : w.system.step (.pump i) = _ := System.call_of_may pumpTurn ht hidle
  rcases pumpTurn_run i w.system.broker t with
    ⟨hsame, hnot⟩ | ⟨hconnected, hhandler, hempty, state, message, rest, hfind, hmessages, hrun⟩
  · have hunchanged : w.system.step (.pump i) = w.system := by
      obtain ⟨hlt, hget⟩ := List.getElem?_eq_some_iff.mp ht
      rw [hstep, hsame, ← hget, List.set_getElem_self]
    unfold pump
    cases hresult : (pumpTurn ⟨w.system.broker, t, i⟩).1 with
    | error e => exact .apart hunchanged rfl
    | ok turn =>
        cases turn with
        | done result => exact .apart hunchanged rfl
        | slept => exact .apart hunchanged rfl
        | calling delivery => exact absurd hresult (hnot delivery)
  · rw [hrun] at hstep
    have hrunning : (w.system.step (.pump i)).running i = some message := by
      rw [System.running_of_lookup (t := t.taking message)]
      · rfl
      · rw [hstep]
        exact System.lookup_set_self ht _
    refine ⟨_, _, .delivered hc ht hempty hfind hmessages hstep, ?_⟩
    unfold pump
    rw [hrun]
    dsimp only
    rw [hrunning, begun, decode_eq]
    cases ByteMessage.deserialize message.body with
    | ok decoded => exact ⟨rfl, rfl⟩
    | error e => exact ⟨rfl, (List.append_nil _).symm⟩

theorem does_handlerEnds {i : Nat} {ending : HandlerEnd} {c : Consumer} {t : InMemoryTransport}
    (hc : w.consumers i = some c) (ht : w.system.transports[i]? = some t)
    (hcallable : t.callable = true) :
    w.Does (.handlerEnds i ending) (w.handlerEnds i ending c t) := by
  unfold handlerEnds
  cases hmessage : t.handling with
  | none => exact .apart rfl rfl
  | some message =>
      dsimp only
      cases hconcludes : decision inMemoryCapabilities (c.configured.handlers ending)
          ⟨message.body, message.redelivered, message.sequence⟩ with
      | error what =>
          exact ⟨_, _, .escaped hc ht hmessage hconcludes, rfl, (List.append_nil _).symm⟩
      | ok d => exact ⟨_, _, .concluded hc ht hcallable hmessage hconcludes, rfl, rfl⟩

/-- Every piece of work is one of the deeds. -/
theorem act_deed (w : Workers) (a : Work) : w.Does a (w.act a) := by
  cases a with
  | call b =>
      simp only [act]
      split
      · next hmay =>
          refine ⟨[b], [], .outside hmay, rfl, ?_⟩
          rw [List.append_nil]
          exact noteReturned_log w b
      · exact .apart rfl rfl
  | construct i configured =>
      simp only [act]
      split
      · split
        · exact .apart rfl rfl
        · exact .apart rfl rfl
      · exact .apart rfl rfl
  | attachSettlementQueue i => exact byConsumer_does fun _ _ _ _ _ => .apart rfl rfl
  | push i handle d => exact byConsumer_does fun _ _ _ _ _ => .apart rfl rfl
  | start i topic options allowAsymmetric =>
      exact byConsumer_does fun c t hc _ _ => does_start hc
  | startSubscribe i => exact byConsumer_does fun c t hc _ _ => does_startSubscribe hc
  | poll i => exact byConsumer_does fun _ _ _ _ _ => .apart rfl rfl
  | tryPop i =>
      refine byConsumer_does fun c t _ _ _ => ?_
      unfold tryPop
      split
      · exact .apart rfl rfl
      · exact .apart rfl rfl
  | settle i => exact byConsumer_does fun c t hc ht _ => does_settle hc ht
  | pump i =>
      exact byConsumer_does fun c t hc ht hmay =>
        does_pump hc ht (Bool.and_eq_true_iff.mp hmay).2
  | sliceOver i => exact byConsumer_does fun _ _ _ _ _ => .apart rfl rfl
  | handlerEnds i ending =>
      exact byConsumer_does fun c t hc ht hmay =>
        does_handlerEnds hc ht (Bool.and_eq_true_iff.mp hmay).2

/-- The observer writes neither to the system nor to the log. -/
theorem step_deed (w : Workers) (a : Work) : w.Does a (w.step a) := w.act_deed a

end Act

end Workers

end Motus.Consumer
