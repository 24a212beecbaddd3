import Motus.Amqp.Dispositions
import Motus.Amqp.Recovery
import Motus.Consumer.Worker
import Motus.Publishing.Rendezvous

set_option autoImplicit false

/-!
# A Consumer and a Producer over SimpleAmqpClient

`pump` of `SimpleAmqpTransport` has no case for a deferred delivery, its `settle` throws
and so does a `send` that asks for a confirm.  The layer above the seam asks
`capabilities()` first and refuses what would get there.  So over this backend the two
count what the transport counts, whatever the library does and however often the
connection is lost.  A handler makes no calls on the transport it is called from.
-/

namespace Motus.Amqp.SimpleAmqpTransport

open Motus.Foundation Motus.Transport

/-- `SimpleAmqpTransport::capabilities()`. -/
def capabilities : Capabilities where
  name := "simpleamqp"
  durableDelivery := true
  manualAcknowledgement := true
  deadLetter := true
  requeue := true
  boundedQueue := true

/-- `settle` of this backend always throws. -/
def settle (_handle : Nat) (_disposition : Disposition) : Method Unit :=
  throw (.logicError ("backend 'simpleamqp' does not support deferred acknowledgement " ++
    "(Capabilities::deferredAcknowledgement is false); check the capability before " ++
    "returning Disposition::Deferred against it"))

/-- The transport would call its handler with a delivery. -/
def listens (t : SimpleAmqpTransport) : Bool := t.isReady && t.memory.subscribed && t.handler

/-! ## Calls that count nothing -/

/-- The counters of deliveries and of sends are the same. -/
structure Uncounted (t t' : SimpleAmqpTransport) : Prop where
  received : t'.stats.received = t.stats.received
  acks : t'.stats.acksPerformed = t.stats.acksPerformed
  rejects : t'.stats.rejectsPerformed = t.stats.rejectsPerformed
  requeues : t'.stats.requeuesPerformed = t.stats.requeuesPerformed
  abandoned : t'.stats.abandoned = t.stats.abandoned
  sent : t'.stats.sent = t.stats.sent

instance : IsPreorder SimpleAmqpTransport Uncounted where
  refl _ := ⟨rfl, rfl, rfl, rfl, rfl, rfl⟩
  trans _ _ _ h h' :=
    ⟨h'.received.trans h.received, h'.acks.trans h.acks, h'.rejects.trans h.rejects,
      h'.requeues.trans h.requeues, h'.abandoned.trans h.abandoned, h'.sent.trans h.sent⟩

/-- Nothing is counted, and nobody has subscribed who had not before. -/
structure Quiet (t t' : SimpleAmqpTransport) : Prop where
  uncounted : Uncounted t t'
  deaf : t.handler = false → t'.handler = false

instance : IsPreorder SimpleAmqpTransport Quiet where
  refl t := ⟨Std.Refl.refl t, id⟩
  trans _ _ _ h h' :=
    ⟨IsTrans.trans _ _ _ h.uncounted h'.uncounted, fun hdeaf => h'.deaf (h.deaf hdeaf)⟩

theorem Reworked.quiet {t t' : SimpleAmqpTransport} (h : Reworked t t') : Quiet t t' := by
  obtain ⟨channel, connected, tag, memory, rfl⟩ := h
  exact ⟨⟨rfl, rfl, rfl, rfl, rfl, rfl⟩, id⟩

theorem quiet_of_reworks {α : Type} {x : Method α} (h : Exec.Along Reworked x) :
    Exec.Along Quiet x := fun t => (h t).quiet

theorem uncounted_of_quiet {α : Type} {x : Method α} (h : Exec.Along Quiet x) :
    Exec.Along Uncounted x := fun t => (h t).uncounted

theorem quiet_topicDepth (env : Except Exn Nat) : Exec.Along Quiet (topicDepth env) := by
  intro t
  rw [state_topicDepth]
  exact Std.Refl.refl t

theorem quiet_purgeTopic (depth : Except Exn Nat) (purge : Thrown) :
    Exec.Along Quiet (purgeTopic depth purge) := by
  intro t
  rw [state_purgeTopic]
  exact Std.Refl.refl t

theorem quiet_ensureTopic (topic : Topic) (options : TopicOptions) (env : DeclareEnv) :
    Exec.Along Quiet (ensureTopic topic options env) :=
  quiet_of_reworks (reworks_ensureTopic topic options env)

theorem uncounted_subscribe (topic : Topic) (callable : Bool) (consume : Except Exn String) :
    Exec.Along Uncounted (subscribe topic callable consume) := by
  intro t
  unfold subscribe
  rw [requireChannel_bind]
  split
  · exact Std.Refl.refl t
  rw [Exec.get_bind]
  split
  · exact Std.Refl.refl t
  split
  · exact Std.Refl.refl t
  have hnamed : Uncounted t { t with handler := true, memory := t.memory.name topic } :=
    ⟨rfl, rfl, rfl, rfl, rfl, rfl⟩
  have hrest : Exec.Along Uncounted (startConsuming consume >>= fun _ =>
      modify fun t => { t with memory := t.memory.subscribe topic } : Method Unit) :=
    Exec.along_bind (uncounted_of_quiet (quiet_of_reworks (reworks_startConsuming consume)))
      fun _ _ => ⟨rfl, rfl, rfl, rfl, rfl, rfl⟩
  exact IsTrans.trans _ _ _ hnamed (hrest _)

theorem quiet_serviceReconnect (env : ReconnectEnv) :
    Exec.Along Quiet (serviceReconnect env) := by
  intro t
  rw [serviceReconnect_apply]
  split
  · exact Std.Refl.refl t
  split
  · exact Std.Refl.refl t
  split
  · exact Std.Refl.refl t
  have hrestore := reworks_restore env { t with failedAttempts := t.failedAttempts + 1 }
  rw [attempt_apply]
  rcases hrun : restore env { t with failedAttempts := t.failedAttempts + 1 } with ⟨r, t'⟩
  rw [hrun] at hrestore
  obtain ⟨channel, connected, tag, memory, rfl⟩ := hrestore
  cases r with
  | ok _ => exact ⟨⟨rfl, rfl, rfl, rfl, rfl, rfl⟩, id⟩
  | error exn =>
      dsimp only
      split
      · exact ⟨⟨rfl, rfl, rfl, rfl, rfl, rfl⟩, id⟩
      · exact ⟨⟨rfl, rfl, rfl, rfl, rfl, rfl⟩, id⟩

/-- A `pump` that does not call the handler counts nothing. -/
theorem quiet_pump {env : PumpEnv} {t : SimpleAmqpTransport}
    (h : t.listens = false ∨
      ∀ body outcome resolve, env.receive ≠ .delivered body outcome resolve) :
    Quiet t (pump env t).2 := by
  unfold pump
  rw [Exec.get_bind]
  by_cases hdown : t.isReady = false
  · rw [if_pos hdown]
    exact quiet_serviceReconnect env.reconnect t
  rw [if_neg hdown]
  by_cases hidle : t.memory.subscribed = false ∨ t.handler = false
  · rw [if_pos hidle]
    exact Std.Refl.refl t
  rw [if_neg hidle]
  cases hreceive : env.receive with
  | nothing => exact Std.Refl.refl t
  | lost =>
      have hlost : Quiet t { t with connected := false } := ⟨⟨rfl, rfl, rfl, rfl, rfl, rfl⟩, id⟩
      exact IsTrans.trans _ _ _ hlost (quiet_serviceReconnect env.reconnect _)
  | delivered body outcome resolve =>
      have hlistens : t.listens = true := by
        rw [not_or] at hidle
        simp only [listens, Bool.and_eq_true]
        exact ⟨⟨by simpa using hdown, by simpa using hidle.1⟩, by simpa using hidle.2⟩
      rcases h with hnot | hother
      · exact absurd hlistens (by simp [hnot])
      · exact absurd hreceive (hother body outcome resolve)

/-- One that calls it counts the delivery, and then what is made of it. -/
theorem pump_delivered {t : SimpleAmqpTransport} (h : t.listens = true) (body : Bytes)
    (outcome : HandlerOutcome) (resolve : Thrown) (reconnect : ReconnectEnv) :
    let received := { t with
      stats.received := t.stats.received + 1
      stats.bytesReceived := t.stats.bytesReceived + body.length }
    (pump ⟨.delivered body outcome resolve, reconnect⟩ t).2 =
      match outcome with
      | .threw _ => { received with stats.abandoned := t.stats.abandoned + 1 }
      | .returned disposition => (perform resolve disposition received).2 := by
  intro received
  simp only [listens, Bool.and_eq_true] at h
  unfold pump
  rw [Exec.get_bind, if_neg (by simp [h.1.1]), if_neg (by simp [h.1.2, h.2])]
  dsimp only
  rw [Exec.modify_bind]
  cases outcome with
  | threw what => rfl
  | returned disposition =>
      change ((perform resolve disposition >>= fun _ => (pure true : Method Bool)) received).2 =
        (perform resolve disposition received).2
      rw [Exec.bind_apply]
      rcases perform resolve disposition received with ⟨r, t'⟩
      cases r <;> rfl

end Motus.Amqp.SimpleAmqpTransport

namespace Motus.Backends

open Motus.Foundation Motus.Transport Motus.Amqp Motus.Publishing
open SimpleAmqpTransport (Thrown DeclareEnv ReconnectEnv PumpEnv Receive)

/-- A transport, and the Consumer and the Producer over it once they are constructed. -/
structure OverSimple where
  transport : SimpleAmqpTransport := {}
  consumer : Option Consumer := none
  producer : Option Producer := none
  /-- Auxiliary: what the lambda of `start` decided and the library then did not do. -/
  unperformed : List Disposition := []

namespace OverSimple

/-- A computation over both ends and the transport between them. -/
abbrev Method (α : Type) : Type := Exec Exn OverSimple α

/-- A method of the transport. -/
def onTransport {α : Type} (x : SimpleAmqpTransport.Method α) : Method α :=
  Exec.zoom OverSimple.transport (fun t s => { s with transport := t }) x

/-- A write to the Consumer, if there is one. -/
def onConsumer (f : Consumer → Consumer) : Method Unit :=
  modify fun s => { s with consumer := s.consumer.map f }

/-! ## What the Consumer does -/

/-- How the receive of one `pump` ends, and a call of the handler in it. -/
inductive Arrival where
  | nothing
  | lost
  | delivered (delivery : Delivery) (ending : Consumer.HandlerEnd) (resolve : Thrown)

/-- What the environment contributes to a turn of `poll`. -/
structure TurnEnv where
  arrival : Arrival := .nothing
  reconnect : ReconnectEnv := {}

/-- What the lambda of `start` returns or throws. -/
def lambda (c : Consumer) (delivery : Delivery) (ending : Consumer.HandlerEnd) : HandlerOutcome :=
  match Consumer.decision SimpleAmqpTransport.capabilities
    (c.configured.handlers ending) delivery with
  | .error what => .threw what
  | .ok disposition => .returned disposition

/-- What a `pump` meets when this Consumer has subscribed. -/
def TurnEnv.over (env : TurnEnv) (c : Consumer) : PumpEnv where
  receive :=
    match env.arrival with
    | .nothing => .nothing
    | .lost => .lost
    | .delivered delivery ending resolve =>
        .delivered delivery.body (lambda c delivery ending) resolve
  reconnect := env.reconnect

/-- The decision that is taken in a `pump`, and what the library makes of it. -/
def decides (env : TurnEnv) (t : SimpleAmqpTransport) (c : Consumer) :
    Option (Disposition × Thrown) :=
  match env.arrival with
  | .delivered delivery ending resolve =>
      if t.listens then
        match lambda c delivery ending with
        | .returned disposition => some (disposition, resolve)
        | .threw _ => none
      else none
  | _ => none

/-- `ITransport::pump`, with the lambda of `start` for its handler. -/
def pump (env : TurnEnv) : Method Bool := fun s =>
  match s.consumer with
  | none => onTransport (SimpleAmqpTransport.pump { reconnect := env.reconnect }) s
  | some c =>
      let (result, t) := SimpleAmqpTransport.pump (env.over c) s.transport
      match decides env s.transport c with
      | none => (result, { s with transport := t })
      | some (disposition, resolve) =>
          (result, { s with
            transport := t
            consumer := some (c.count disposition)
            unperformed := if resolve.isSome then disposition :: s.unperformed else s.unperformed })

/-- The loop of `poll` over what is pending. -/
def drain : List (Nat × Disposition) → Method Unit
  | [] => pure ()
  | (handle, disposition) :: rest => do
      onConsumer fun c => { c with settlements := ⟨rest⟩ }
      onTransport (SimpleAmqpTransport.settle handle disposition)
      onConsumer fun c => c.countSettled disposition
      drain rest

/-- `Consumer::poll` over this transport. -/
def poll (env : TurnEnv) : Method Bool := do
  let s ← get
  match s.consumer with
  | none => pure false   -- nobody to call it on
  | some c => do
      if c.attached then drain c.settlements.pending
      pump env

/-- `Consumer::start` over it. -/
def start (topic : Topic) (options : TopicOptions) (allowAsymmetric : Bool) (env : DeclareEnv)
    (consume : Except Exn String) : Method Unit := do
  let s ← get
  if s.consumer.isSome then
    onTransport (Motus.Consumer.start SimpleAmqpTransport.capabilities
      (fun topic options => SimpleAmqpTransport.ensureTopic topic options env)
      (fun topic callable => SimpleAmqpTransport.subscribe topic callable consume)
      topic options allowAsymmetric)
  else pure ()

/-! ## What the Producer does -/

/-- `Producer::declareTopic` over it. -/
def declareTopic (topic : Topic) (options : TopicOptions) (allowAsymmetric : Bool)
    (env : DeclareEnv) (depth : Except Exn Nat) : Method Nat :=
  onTransport (Producer.declareTopic SimpleAmqpTransport.capabilities
    (fun topic options => SimpleAmqpTransport.ensureTopic topic options env) true
    (fun _ => SimpleAmqpTransport.topicDepth depth) topic options allowAsymmetric)

/-- The state after a `publish`; a message is what its `serialize` yields. -/
def publish (topic : Topic) (message : Except String Bytes) (thrown : Thrown) (s : OverSimple) :
    OverSimple :=
  match s.producer with
  | none => s
  | some p =>
      let (_, t, p) := Producer.publish id
        (fun _ payload options => SimpleAmqpTransport.send payload options thrown)
        topic message (s.transport, p)
      { s with transport := t, producer := some p }

/-! ## Both at work -/

/-- The calls on the transport that go past the two of them: they alone subscribe, send
and pump. -/
def spares : SimpleAmqpTransport.Call → Bool
  | .send .. | .subscribe .. | .pump .. => false
  | _ => true

/-- What happens at either end, one whole call at a time: the handlers make no calls on the
transport. -/
inductive Turn where
  | call (call : SimpleAmqpTransport.Call)
  | construct (configured : Consumer.Configured)
  | attachSettlementQueue
  /-- some thread pushes a settlement -/
  | push (handle : Nat) (disposition : Disposition)
  | start (topic : Topic) (options : TopicOptions) (allowAsymmetric : Bool) (env : DeclareEnv)
      (consume : Except Exn String)
  | poll (env : TurnEnv)
  | constructProducer (options : SendOptions)
  | declareTopic (topic : Topic) (options : TopicOptions) (allowAsymmetric : Bool)
      (env : DeclareEnv) (depth : Except Exn Nat)
  | publish (topic : Topic) (message : Except String Bytes) (thrown : Thrown)
  /-- `Producer::flush` -/
  | flush (env : TurnEnv)

/-- What one turn does. -/
def step (s : OverSimple) : Turn → OverSimple
  | .call call =>
      if spares call then { s with transport := (call.method s.transport).2 } else s
  | .construct configured =>
      match s.consumer, Consumer.checkHandlers SimpleAmqpTransport.capabilities configured with
      | none, .ok _ => { s with consumer := some { configured := configured } }
      | _, _ => s
  | .attachSettlementQueue => (onConsumer (fun c => { c with attached := true }) s).2
  | .push handle disposition =>
      (onConsumer (fun c => { c with settlements := c.settlements.push handle disposition }) s).2
  | .start topic options allowAsymmetric env consume =>
      (start topic options allowAsymmetric env consume s).2
  | .poll env => (poll env s).2
  | .constructProducer options =>
      match s.producer, Producer.construct SimpleAmqpTransport.capabilities options with
      | none, .ok p => { s with producer := some p }
      | _, _ => s
  | .declareTopic topic options allowAsymmetric env depth =>
      (declareTopic topic options allowAsymmetric env depth s).2
  | .publish topic message thrown => s.publish topic message thrown
  | .flush env => (pump env s).2

/-- A Consumer and a Producer that share one transport. -/
def machine : Machine OverSimple Turn where
  init := {}
  step := step

/-! ## The counts -/

/-- The counter of a Consumer for a disposition. -/
def decidedOf (c : Consumer) : Disposition → Nat
  | .ack => c.acked
  | .reject => c.rejected
  | .requeue => c.requeued
  | .deferred => c.deferred

/-- What the Consumer reports; zero before it is constructed. -/
def decided (s : OverSimple) (disposition : Disposition) : Nat :=
  (s.consumer.map (decidedOf · disposition)).getD 0

/-- `published()` of the Producer, in the same way. -/
def published (s : OverSimple) : Nat := (s.producer.map Producer.published).getD 0

/-- Every delivery is decided, once, or its handler let something escape; what is decided
is performed unless the library throws; and what was published is what was sent. -/
structure CountsAgree (s : OverSimple) : Prop where
  received : s.transport.stats.received =
    s.decided .ack + s.decided .reject + s.decided .requeue + s.transport.stats.abandoned
  performed : ∀ disposition, s.decided disposition =
    Session.performedOf s.transport.stats disposition + s.unperformed.count disposition
  deferred : s.decided .deferred = 0
  published : s.published = s.transport.stats.sent

/-- What holds in every state. -/
structure Sound (s : OverSimple) : Prop where
  counts : s.CountsAgree
  /-- what the constructor has seen to -/
  immediate : ∀ c, s.consumer = some c → c.configured = ⟨true, false⟩
  /-- only a Consumer subscribes -/
  deaf : s.consumer = none → s.transport.handler = false

theorem sound_init : Sound {} where
  counts := ⟨rfl, fun disposition => by cases disposition <;> rfl, rfl, rfl⟩
  immediate := fun _ h => absurd h (by simp)
  deaf := fun _ => rfl

/-- What a Consumer over this backend has been constructed with. -/
theorem immediate_of_checkHandlers {configured : Consumer.Configured}
    (h : Consumer.checkHandlers SimpleAmqpTransport.capabilities configured = .ok ()) :
    configured = ⟨true, false⟩ := by
  obtain ⟨onMessage, onDeferred⟩ := configured
  cases onDeferred with
  | true =>
      cases onMessage <;>
        exact absurd h (by simp [Consumer.checkHandlers, SimpleAmqpTransport.capabilities])
  | false =>
      cases onMessage with
      | true => rfl
      | false => exact absurd h (by simp [Consumer.checkHandlers])

/-- So its lambda defers nothing: `pump` never gets to the case it does not have. -/
theorem lambda_ne_deferred {c : Consumer} (h : c.configured = ⟨true, false⟩)
    (delivery : Delivery) (ending : Consumer.HandlerEnd) :
    lambda c delivery ending ≠ .returned .deferred := by
  unfold lambda
  rw [h]
  cases hdecode : Consumer.decode delivery.body with
  | error failure =>
      rw [Consumer.decision_of_decode_error _ hdecode]
      simp
  | ok message =>
      rw [Consumer.decision_onMessage rfl hdecode]
      cases ending with
      | returned disposition => simp
      | transientFailure what => cases delivery.redelivered <;> simp
      | exception what => simp
      | foreign what => simp

/-! ## What one turn does to the counts -/

/-- One more decision. -/
theorem decidedOf_count (c : Consumer) (disposition d : Disposition) :
    decidedOf (c.count disposition) d = decidedOf c d + if disposition = d then 1 else 0 := by
  cases disposition <;> cases d <;> rfl

/-- It is performed unless the library throws. -/
theorem performedOf_perform (resolve : Thrown) {disposition : Disposition}
    (h : disposition ≠ .deferred) (d : Disposition) (t : SimpleAmqpTransport) :
    Session.performedOf (SimpleAmqpTransport.perform resolve disposition t).2.stats d =
      Session.performedOf t.stats d + if resolve.isNone ∧ disposition = d then 1 else 0 := by
  cases resolve with
  | some exn => cases disposition <;> cases d <;> rfl
  | none =>
      cases disposition with
      | deferred => exact absurd rfl h
      | ack | reject | requeue => cases d <;> rfl

/-- And nothing else is counted with it. -/
theorem perform_stats (resolve : Thrown) (disposition : Disposition) (t : SimpleAmqpTransport) :
    (SimpleAmqpTransport.perform resolve disposition t).2.stats.received = t.stats.received ∧
      (SimpleAmqpTransport.perform resolve disposition t).2.stats.abandoned = t.stats.abandoned ∧
      (SimpleAmqpTransport.perform resolve disposition t).2.stats.sent = t.stats.sent := by
  cases resolve <;> cases disposition <;> exact ⟨rfl, rfl, rfl⟩

/-- The counters that `performedOf` reads. -/
theorem performedOf_uncounted {t t' : SimpleAmqpTransport} (h : t.Uncounted t')
    (disposition : Disposition) :
    Session.performedOf t'.stats disposition = Session.performedOf t.stats disposition := by
  cases disposition with
  | ack => exact h.acks
  | reject => exact h.rejects
  | requeue => exact h.requeues
  | deferred => rfl

section Sound

variable {s : OverSimple}

/-- Whatever else is written: the counters of the transport, those of the two above it and
the decisions not performed are the same. -/
theorem CountsAgree.of_same (h : s.CountsAgree) {s' : OverSimple}
    (htransport : s.transport.Uncounted s'.transport) (hdecided : s'.decided = s.decided)
    (hpublished : s'.published = s.published) (hunperformed : s'.unperformed = s.unperformed) :
    s'.CountsAgree where
  received := by
    rw [hdecided, htransport.received, htransport.abandoned]
    exact h.received
  performed := fun disposition => by
    rw [hdecided, hunperformed, performedOf_uncounted htransport]
    exact h.performed disposition
  deferred := by rw [hdecided, h.deferred]
  published := by rw [hpublished, htransport.sent, h.published]

theorem Sound.quiet (h : s.Sound) {t : SimpleAmqpTransport} (ht : s.transport.Quiet t) :
    Sound { s with transport := t } where
  counts := h.counts.of_same ht.uncounted rfl rfl rfl
  immediate := h.immediate
  deaf := fun hnone => ht.deaf (h.deaf hnone)

/-- A method of the transport that counts nothing. -/
theorem Sound.onTransport (h : s.Sound) {α : Type} {x : SimpleAmqpTransport.Method α}
    (hx : Exec.Along SimpleAmqpTransport.Quiet x) : (OverSimple.onTransport x s).2.Sound :=
  h.quiet (hx s.transport)

/-- A write to the Consumer that leaves its counters alone. -/
theorem Sound.onConsumer (h : s.Sound) {f : Consumer → Consumer}
    (hdecided : ∀ c, decidedOf (f c) = decidedOf c)
    (hconfigured : ∀ c, (f c).configured = c.configured) :
    (OverSimple.onConsumer f s).2.Sound := by
  obtain ⟨t, consumer, p, unperformed⟩ := s
  cases consumer with
  | none => exact h
  | some c =>
      refine ⟨h.counts.of_same (Std.Refl.refl t) (hdecided c) rfl rfl, fun c' hc' => ?_,
        fun hnone => absurd hnone (by simp [OverSimple.onConsumer])⟩
      obtain rfl := Option.some.inj hc'
      exact (hconfigured c).trans (h.immediate c rfl)

/-- A delivery that the handler was not done with. -/
theorem CountsAgree.of_abandoned (h : s.CountsAgree) {t : SimpleAmqpTransport}
    (hreceived : t.stats.received = s.transport.stats.received + 1)
    (habandoned : t.stats.abandoned = s.transport.stats.abandoned + 1)
    (hsent : t.stats.sent = s.transport.stats.sent)
    (hperformed : ∀ d, Session.performedOf t.stats d = Session.performedOf s.transport.stats d) :
    CountsAgree { s with transport := t } where
  received := by
    rw [hreceived, habandoned, h.received]
    rfl
  performed := fun d => by
    rw [hperformed]
    exact h.performed d
  deferred := h.deferred
  published := h.published.trans hsent.symm

/-- One that was decided: either it is performed, or the library throws. -/
theorem CountsAgree.of_decided (h : s.CountsAgree) {s' : OverSimple} {disposition : Disposition}
    (hfinal : disposition ≠ .deferred) (resolve : Thrown)
    (hreceived : s'.transport.stats.received = s.transport.stats.received + 1)
    (habandoned : s'.transport.stats.abandoned = s.transport.stats.abandoned)
    (hsent : s'.transport.stats.sent = s.transport.stats.sent)
    (hperformed : ∀ d, Session.performedOf s'.transport.stats d =
      Session.performedOf s.transport.stats d + if resolve.isNone ∧ disposition = d then 1 else 0)
    (hdecided : ∀ d, s'.decided d = s.decided d + if disposition = d then 1 else 0)
    (hunperformed : s'.unperformed =
      if resolve.isSome then disposition :: s.unperformed else s.unperformed)
    (hpublished : s'.published = s.published) : s'.CountsAgree where
  received := by
    have hbefore := h.received
    rw [hreceived, habandoned, hdecided, hdecided, hdecided]
    cases disposition with
    | deferred => exact absurd rfl hfinal
    | ack | reject | requeue => simp; omega
  performed := fun d => by
    rw [hdecided, hperformed, hunperformed, h.performed d]
    cases resolve with
    | none => simp; omega
    | some exn =>
        rw [if_pos (Option.isSome_some ..), List.count_cons]
        simp; omega
  deferred := by rw [hdecided, h.deferred, if_neg hfinal]
  published := by rw [hpublished, hsent, h.published]

/-- The state after a `pump`, once there is a Consumer. -/
theorem pump_consumer {c : Consumer} (hc : s.consumer = some c) (env : TurnEnv) :
    (OverSimple.pump env s).2 =
      match decides env s.transport c with
      | none => { s with transport := (SimpleAmqpTransport.pump (env.over c) s.transport).2 }
      | some (disposition, resolve) => { s with
          transport := (SimpleAmqpTransport.pump (env.over c) s.transport).2
          consumer := some (c.count disposition)
          unperformed :=
            if resolve.isSome then disposition :: s.unperformed else s.unperformed } := by
  unfold OverSimple.pump
  rw [hc]
  dsimp only
  cases decides env s.transport c <;> rfl

/-- A delivery that a `pump` hands to the Consumer. -/
theorem Sound.delivered (h : s.Sound) {c : Consumer} (hc : s.consumer = some c)
    (hlistens : s.transport.listens = true) {env : TurnEnv} {delivery : Delivery}
    {ending : Consumer.HandlerEnd} {resolve : Thrown}
    (harrival : env.arrival = .delivered delivery ending resolve) :
    (OverSimple.pump env s).2.Sound := by
  have hover : env.over c =
      ⟨.delivered delivery.body (lambda c delivery ending) resolve, env.reconnect⟩ := by
    simp only [TurnEnv.over, harrival]
  have hpump := SimpleAmqpTransport.pump_delivered hlistens delivery.body
    (lambda c delivery ending) resolve env.reconnect
  have hsome : ∀ {P : Prop}, s.consumer = none → P := fun hnone => by
    rw [hc] at hnone
    cases hnone
  rw [pump_consumer hc, hover]
  cases hlambda : lambda c delivery ending with
  | threw what =>
      have hnone : decides env s.transport c = none := by
        simp only [decides, harrival, if_pos hlistens, hlambda]
      rw [hlambda] at hpump
      rw [hnone]
      dsimp only at hpump ⊢
      rw [hpump]
      exact ⟨h.counts.of_abandoned rfl rfl rfl (fun d => by cases d <;> rfl), h.immediate, hsome⟩
  | returned disposition =>
      have hdecides : decides env s.transport c = some (disposition, resolve) := by
        simp only [decides, harrival, if_pos hlistens, hlambda]
      have hfinal : disposition ≠ .deferred := by
        rintro rfl
        exact lambda_ne_deferred (h.immediate c hc) delivery ending hlambda
      rw [hlambda] at hpump
      rw [hdecides]
      dsimp only at hpump ⊢
      rw [hpump]
      obtain ⟨hreceived, habandoned, hsent⟩ := perform_stats resolve disposition { s.transport with
        stats.received := s.transport.stats.received + 1
        stats.bytesReceived := s.transport.stats.bytesReceived + delivery.body.length }
      have hperformed := fun d => performedOf_perform resolve hfinal d { s.transport with
        stats.received := s.transport.stats.received + 1
        stats.bytesReceived := s.transport.stats.bytesReceived + delivery.body.length }
      have hcounted : ∀ d, s.decided d = decidedOf c d := fun d => by
        rw [OverSimple.decided, hc]
        rfl
      refine ⟨h.counts.of_decided hfinal resolve hreceived habandoned hsent (fun d => ?_)
        (fun d => ?_) rfl rfl, fun c' hc' => ?_, fun hnone => absurd hnone (by simp)⟩
      · rw [hperformed]
        cases d <;> rfl
      · rw [hcounted]
        exact decidedOf_count c disposition d
      · obtain rfl := Option.some.inj hc'
        have hconfigured : (c.count disposition).configured = c.configured := by
          cases disposition <;> rfl
        exact hconfigured.trans (h.immediate c hc)

theorem Sound.pump (h : s.Sound) (env : TurnEnv) : (OverSimple.pump env s).2.Sound := by
  cases hc : s.consumer with
  | none =>
      have hnothing : ∀ body outcome resolve,
          (PumpEnv.receive { reconnect := env.reconnect }) ≠ .delivered body outcome resolve :=
        fun _ _ _ => Receive.noConfusion
      unfold OverSimple.pump
      rw [hc]
      exact h.quiet (SimpleAmqpTransport.quiet_pump (.inr hnothing))
  | some c =>
      have hsilent : (s.transport.listens = false ∨ ∀ body outcome resolve,
          (env.over c).receive ≠ .delivered body outcome resolve) →
            decides env s.transport c = none → (OverSimple.pump env s).2.Sound := by
        intro hother hnone
        rw [pump_consumer hc, hnone]
        exact h.quiet (SimpleAmqpTransport.quiet_pump hother)
      cases harrival : env.arrival with
      | nothing | lost =>
          exact hsilent (.inr (by simp [TurnEnv.over, harrival])) (by simp [decides, harrival])
      | delivered delivery ending resolve =>
          cases hlistens : s.transport.listens with
          | true => exact h.delivered hc hlistens harrival
          | false => exact hsilent (.inl hlistens) (by simp [decides, harrival, hlistens])

/-- The loop of `poll` ends at the first pair, with what `settle` throws. -/
theorem Sound.drain (h : s.Sound) (pending : List (Nat × Disposition)) :
    (OverSimple.drain pending s).2.Sound := by
  cases pending with
  | nil => exact h
  | cons pair rest =>
      have hpopped := h.onConsumer (f := fun c => { c with settlements := ⟨rest⟩ })
        (fun _ => rfl) fun _ => rfl
      exact hpopped

theorem Sound.poll (h : s.Sound) (env : TurnEnv) : (OverSimple.poll env s).2.Sound := by
  unfold OverSimple.poll
  rw [Exec.get_bind]
  cases s.consumer with
  | none => exact h
  | some c =>
      dsimp only
      split
      · have hdrained := h.drain c.settlements.pending
        rw [Exec.bind_apply]
        rcases hrun : OverSimple.drain c.settlements.pending s with ⟨r, s'⟩
        rw [hrun] at hdrained
        cases r with
        | error exn => exact hdrained
        | ok _ => exact hdrained.pump env
      · exact h.pump env

theorem Sound.start (h : s.Sound) (topic : Topic) (options : TopicOptions)
    (allowAsymmetric : Bool) (env : DeclareEnv) (consume : Except Exn String) :
    (OverSimple.start topic options allowAsymmetric env consume s).2.Sound := by
  unfold OverSimple.start
  rw [Exec.get_bind]
  split
  · next hsome =>
      have huncounted : Exec.Along SimpleAmqpTransport.Uncounted
          (Motus.Consumer.start SimpleAmqpTransport.capabilities
            (fun topic options => SimpleAmqpTransport.ensureTopic topic options env)
            (fun topic callable => SimpleAmqpTransport.subscribe topic callable consume)
            topic options allowAsymmetric) := by
        unfold Motus.Consumer.start
        split
        · exact Exec.along_throw _
        · refine Exec.along_bind (SimpleAmqpTransport.uncounted_of_quiet
            (SimpleAmqpTransport.quiet_ensureTopic topic options env)) fun _ => ?_
          exact SimpleAmqpTransport.uncounted_subscribe topic true consume
      exact ⟨h.counts.of_same (huncounted s.transport) rfl rfl rfl, h.immediate,
        fun hnone => absurd hsome (by simp [show s.consumer = none from hnone])⟩
  · exact h

theorem Sound.declareTopic (h : s.Sound) (topic : Topic) (options : TopicOptions)
    (allowAsymmetric : Bool) (env : DeclareEnv) (depth : Except Exn Nat) :
    (OverSimple.declareTopic topic options allowAsymmetric env depth s).2.Sound := by
  apply h.onTransport
  unfold Producer.declareTopic
  split
  · exact Exec.along_throw _
  · refine Exec.along_bind (SimpleAmqpTransport.quiet_ensureTopic topic options env) fun _ => ?_
    exact SimpleAmqpTransport.quiet_topicDepth depth

/-- A call that goes past the Consumer and the Producer. -/
theorem Sound.call (h : s.Sound) {call : SimpleAmqpTransport.Call} (hspares : spares call = true) :
    Sound { s with transport := (call.method s.transport).2 } := by
  apply h.quiet
  have hquiet : Exec.Along SimpleAmqpTransport.Quiet call.method := by
    cases call with
    | connect endpoint env =>
        refine Exec.along_bind (fun _ => ⟨⟨rfl, rfl, rfl, rfl, rfl, rfl⟩, id⟩) fun _ => ?_
        exact SimpleAmqpTransport.quiet_of_reworks (SimpleAmqpTransport.reworks_openChannel env)
    | setReconnectPolicy policy => exact fun _ => ⟨⟨rfl, rfl, rfl, rfl, rfl, rfl⟩, id⟩
    | ensureTopic topic options env =>
        refine Exec.along_bind (SimpleAmqpTransport.quiet_ensureTopic topic options env) fun _ => ?_
        exact fun _ => ⟨⟨rfl, rfl, rfl, rfl, rfl, rfl⟩, id⟩
    | topicDepth env =>
        intro t
        rw [SimpleAmqpTransport.Call.method, Exec.map_apply]
        exact SimpleAmqpTransport.quiet_topicDepth env t
    | purgeTopic depth purge =>
        intro t
        rw [SimpleAmqpTransport.Call.method, Exec.map_apply]
        exact SimpleAmqpTransport.quiet_purgeTopic depth purge t
    | close => exact fun _ => ⟨⟨rfl, rfl, rfl, rfl, rfl, rfl⟩, fun _ => rfl⟩
    | send | subscribe | pump => exact absurd hspares Bool.false_ne_true
  exact hquiet s.transport

/-- A send is counted exactly when it answers that it was accepted. -/
theorem sent_send (payload : Bytes) (options : SendOptions) (thrown : Thrown)
    {t : SimpleAmqpTransport} {p : Producer} (h : p.published = t.stats.sent) :
    (p.told (SimpleAmqpTransport.send payload options thrown t).1).published =
      (SimpleAmqpTransport.send payload options thrown t).2.stats.sent := by
  unfold SimpleAmqpTransport.send
  rw [SimpleAmqpTransport.requireChannel_bind]
  split
  · exact h
  split
  · exact h
  · cases thrown with
    | none => exact congrArg (· + 1) h
    | some exn => exact h

/-- A publish is counted on both sides or on neither. -/
theorem Sound.publish (h : s.Sound) (topic : Topic) (message : Except String Bytes)
    (thrown : Thrown) : (s.publish topic message thrown).Sound := by
  obtain ⟨t, consumer, producer, unperformed⟩ := s
  cases producer with
  | none => exact h
  | some p =>
      unfold OverSimple.publish
      dsimp only
      cases hmessage : message with
      | error e =>
          rw [Producer.publish_unserialized id _ rfl]
          exact h
      | ok payload =>
          rw [Producer.publish_serialized id _ rfl]
          have hsent := sent_send payload p.options thrown h.counts.published
          obtain ⟨sent, bytesSent, hsend⟩ :=
            SimpleAmqpTransport.state_send payload p.options thrown t
          rw [hsend] at hsent
          dsimp only
          rw [hsend]
          exact ⟨⟨h.counts.received, fun d => (h.counts.performed d).trans (by cases d <;> rfl),
            h.counts.deferred, hsent⟩, h.immediate, h.deaf⟩

theorem Sound.construct (h : s.Sound) {configured : Consumer.Configured}
    (hnone : s.consumer = none)
    (hcheck : Consumer.checkHandlers SimpleAmqpTransport.capabilities configured = .ok ()) :
    Sound { s with consumer := some { configured := configured } } := by
  refine ⟨h.counts.of_same (Std.Refl.refl s.transport) ?_ rfl rfl, fun c hc => ?_,
    fun hnone => absurd hnone (by simp)⟩
  · funext disposition
    unfold decided
    rw [hnone]
    cases disposition <;> rfl
  · obtain rfl := Option.some.inj hc
    exact immediate_of_checkHandlers hcheck

theorem Sound.constructProducer (h : s.Sound) {options : SendOptions} {p : Producer}
    (hnone : s.producer = none)
    (hconstruct : Producer.construct SimpleAmqpTransport.capabilities options = .ok p) :
    Sound { s with producer := some p } := by
  refine ⟨h.counts.of_same (Std.Refl.refl s.transport) rfl ?_ rfl, h.immediate, h.deaf⟩
  unfold published
  rw [hnone, (Producer.construct_ok hconstruct).1]
  rfl

/-- Each turn keeps it. -/
theorem Sound.step (h : s.Sound) (turn : Turn) : (s.step turn).Sound := by
  cases turn with
  | call call =>
      unfold OverSimple.step
      dsimp only
      split
      · next hspares => exact h.call hspares
      · exact h
  | construct configured =>
      unfold OverSimple.step
      dsimp only
      split
      · next hnone hcheck => exact h.construct hnone hcheck
      · exact h
  | attachSettlementQueue => exact h.onConsumer (fun _ => rfl) fun _ => rfl
  | push handle disposition => exact h.onConsumer (fun _ => rfl) fun _ => rfl
  | start topic options allowAsymmetric env consume => exact h.start _ _ _ _ _
  | poll env => exact h.poll env
  | constructProducer options =>
      unfold OverSimple.step
      dsimp only
      split
      · next hnone hconstruct => exact h.constructProducer hnone hconstruct
      · exact h
  | declareTopic topic options allowAsymmetric env depth => exact h.declareTopic _ _ _ _ _
  | publish topic message thrown => exact h.publish topic message thrown
  | flush env => exact h.pump env

end Sound

/-- Over SimpleAmqpClient, in every run of a Consumer and a Producer on one transport,
whatever the library throws and however often the connection is lost and restored. -/
theorem counts_agree (turns : List Turn) : machine.Always CountsAgree turns := by
  have hsound : machine.Always Sound turns :=
    Machine.AlwaysFrom.of_step turns (fun _ turn h => h.step turn) sound_init
  exact hsound.mono fun _ h => h.counts

end OverSimple

end Motus.Backends
