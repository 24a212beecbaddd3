import Motus.Amqp.CppTransport
import Motus.Amqp.Events

set_option autoImplicit false

/-!
# What the methods leave alone

A relation on sessions that each single write keeps is kept by every method made
of such writes.  `KeptByAsk` lists the writes of the callbacks and of one request,
`Kept` those of a declaration; `KeptByAll` adds those of the other methods, except
for the memory, which only `ensureTopic`, `subscribe` and `close` write.
-/

namespace Motus.Amqp

open Motus.Foundation Motus.Transport AmqpConnection

namespace Session

/-- A relation on sessions, read on wires. -/
def OnOwner (R : Session → Session → Prop) (w w' : Wire Session) : Prop := R w.owner w'.owner

instance {R : Session → Session → Prop} [IsPreorder Session R] :
    IsPreorder (Wire Session) (OnOwner R) where
  refl w := Std.Refl.refl w.owner
  trans u v w := IsTrans.trans u.owner v.owner w.owner

/-- The channel keeps its identity and what was asked of it for good. -/
structure SameChannel (ch ch' : Channel) : Prop where
  generation : ch'.generation = ch.generation
  lastTag : ch'.lastTag = ch.lastTag
  declared : ch'.declared = ch.declared
  consumed : ch'.consumed = ch.consumed

/-- A final disposition is begun. -/
def begun (tag : Nat) (disposition : Disposition) (sendable : Bool) (s : Session) : Session :=
  { s with resolutions := ⟨⟨s.generation, tag⟩, disposition, sendable⟩ :: s.resolutions }

/-- The counter of a disposition. -/
def counted (disposition : Disposition) (s : Session) : Session :=
  { s with stats := { s.stats with
      acksPerformed := s.stats.acksPerformed + if disposition = .ack then 1 else 0
      rejectsPerformed := s.stats.rejectsPerformed + if disposition = .reject then 1 else 0
      requeuesPerformed := s.stats.requeuesPerformed + if disposition = .requeue then 1 else 0 } }

/-- What `perform` makes of a session. -/
inductive Performed (tag : Nat) (s : Session) : Session → Prop where
  | deferred : Performed tag s { s with outstandingDeferred := insert tag s.outstandingDeferred }
  /-- the channel took the frame -/
  | accepted (disposition : Disposition) (hfinal : disposition ≠ .deferred) :
      Performed tag s (counted disposition
        { begun tag disposition true s with accepted := disposition :: s.accepted })
  /-- the channel refused the frame -/
  | refused (disposition : Disposition) (hfinal : disposition ≠ .deferred) :
      Performed tag s (counted disposition (begun tag disposition false s))
  /-- the write of the frame threw -/
  | failed (disposition : Disposition) (hfinal : disposition ≠ .deferred) :
      Performed tag s (begun tag disposition true s)

/-- A delivery arrives. -/
def arrived (ch : Channel) (body : Bytes) (redelivered : Bool) (s : Session) : Session :=
  { s with
    channel := some { ch with lastTag := ch.lastTag + 1 }
    handed := (⟨ch.generation, ch.lastTag + 1⟩, ⟨body, redelivered, ch.lastTag + 1⟩) :: s.handed
    stats.received := s.stats.received + 1 }

/-- What `onReceived` makes of a session. -/
inductive Handled (tag : Nat) (s : Session) : Session → Prop where
  | threw (what : String) : Handled tag s { s with
      handlerFailure := some what, stats.abandoned := s.stats.abandoned + 1
      abandonments := ⟨⟨s.generation, tag⟩, what, s.handlerFailure⟩ :: s.abandonments }
  | returned {s' : Session} (hperformed : Performed tag s s') : Handled tag s s'

/-- The writes of the callbacks and of one request. -/
structure KeptByAsk (R : Session → Session → Prop) : Prop where
  answer : ∀ s answer, R s { s with answer := answer }
  channel : ∀ s ch ch', s.channel = some ch → SameChannel ch ch' →
    R s { s with channel := some ch' }
  received : ∀ s ch body redelivered s', s.channel = some ch →
    Handled (ch.lastTag + 1) (arrived ch body redelivered s) s' → R s s'

/-- The writes of the callbacks and of the requests. -/
structure Kept (R : Session → Session → Prop) : Prop extends KeptByAsk R where
  routes : ∀ s routes, R s { s with routes := routes }

section KeptByAsk

variable {R : Session → Session → Prop} [IsPreorder Session R] (hkept : KeptByAsk R)
include hkept

omit hkept in
theorem onOwner_onWire {α : Type} (x : Exec Exn AmqpConnection α) :
    Exec.Along (OnOwner R) (onWire x) := fun w => Std.Refl.refl w.owner

omit hkept in
theorem onOwner_emit (out : Outbound) : Exec.Along (OnOwner R) (emit out) := by
  apply Exec.along_get_bind
  intro w
  cases w.owner.channel with
  | none => exact Exec.along_pure _
  | some channel =>
      dsimp only
      split
      · exact Exec.along_bind (onOwner_onWire _) fun _ => Exec.along_pure _
      · exact Exec.along_pure _

omit [IsPreorder Session R] hkept in
/-- A frame is sent exactly when it can be, unless its write throws. -/
theorem emit_cases (out : Outbound) (w : Wire Session) :
    (isSendable w = false ∧ emit out w = (.ok false, w)) ∨
      (isSendable w = true ∧ ∃ c, emit out w = (.ok true, ⟨c, w.owner⟩) ∨
        ∃ exn, emit out w = (.error exn, ⟨c, w.owner⟩)) := by
  unfold emit isSendable
  rw [Exec.get_bind]
  cases w.owner.channel with
  | none => exact .inl ⟨rfl, rfl⟩
  | some channel =>
      rw [Option.any_some]
      dsimp only
      by_cases hsendable : channel.usable = true ∧ w.connection.library = .usable
      · rw [if_pos hsendable, hsendable.1, hsendable.2]
        refine .inr ⟨rfl, (onData out w.connection).2, ?_⟩
        rw [Exec.bind_apply]
        unfold onWire
        rw [Exec.zoom_apply]
        cases (onData out w.connection).1 with
        | ok _ => exact .inl rfl
        | error exn => exact .inr ⟨exn, rfl⟩
      · rw [if_neg hsendable]
        refine .inl ⟨?_, rfl⟩
        rw [Bool.and_eq_false_iff, decide_eq_false_iff_not]
        cases husable : channel.usable with
        | false => exact .inl rfl
        | true => exact .inr fun hlibrary => hsendable ⟨husable, hlibrary⟩

omit [IsPreorder Session R] hkept in
theorem resolve_cases (tag : Nat) (disposition : Disposition) (out : Outbound)
    (w : Wire Session) :
    (∃ exn c, resolve tag disposition out w =
        (.error exn, ⟨c, begun tag disposition true w.owner⟩)) ∨
      (∃ c, resolve tag disposition out w =
        (.ok (), ⟨c, { begun tag disposition true w.owner with
          accepted := disposition :: w.owner.accepted }⟩)) ∨
      (∃ c, resolve tag disposition out w =
        (.ok (), ⟨c, begun tag disposition false w.owner⟩)) := by
  unfold resolve
  rw [Exec.modify_bind, Exec.bind_apply]
  have hemit := emit_cases out
    ⟨w.connection, begun tag disposition (isSendable w) w.owner⟩
  have hsame : isSendable ⟨w.connection, begun tag disposition (isSendable w) w.owner⟩ =
    isSendable w := rfl
  rw [hsame] at hemit
  unfold begun at hemit ⊢
  rcases hemit with ⟨hsendable, hrun⟩ | ⟨hsendable, c, hrun | ⟨exn, hrun⟩⟩
  · rw [hsendable] at hrun ⊢
    rw [hrun]
    exact .inr (.inr ⟨_, rfl⟩)
  · rw [hsendable] at hrun ⊢
    rw [hrun]
    exact .inr (.inl ⟨_, rfl⟩)
  · rw [hsendable] at hrun ⊢
    rw [hrun]
    exact .inl ⟨exn, c, rfl⟩

omit [IsPreorder Session R] hkept in
theorem performed_perform (tag : Nat) (out : Outbound) (disposition : Disposition)
    (w : Wire Session) : Performed tag w.owner (perform tag out disposition w).2.owner := by
  have hfinal : disposition ≠ .deferred → ∀ count : Session → Session,
      count = counted disposition →
      Performed tag w.owner
        ((resolve tag disposition out >>= fun _ => modifySession count) w).2.owner := by
    rintro hnot count rfl
    rcases resolve_cases tag disposition out w with ⟨exn, c, hrun⟩ | ⟨c, hrun⟩ | ⟨c, hrun⟩
    · rw [Exec.bind_error hrun]
      exact .failed disposition hnot
    · rw [Exec.bind_ok hrun]
      exact .accepted disposition hnot
    · rw [Exec.bind_ok hrun]
      exact .refused disposition hnot
  cases disposition with
  | ack => exact hfinal (by simp) _ rfl
  | requeue => exact hfinal (by simp) _ rfl
  | reject => exact hfinal (by simp) _ rfl
  | deferred => exact .deferred

omit [IsPreorder Session R] hkept in
theorem handled_onReceived (tag : Nat) (outcome : HandlerOutcome) (out : Outbound)
    (w : Wire Session) : Handled tag w.owner (onReceived tag outcome out w).2.owner := by
  cases outcome with
  | threw what => exact .threw what
  | returned disposition => exact .returned (performed_perform tag out disposition w)

omit hkept in
theorem onOwner_modifyChannel (f : Channel → Channel)
    (hf : ∀ s ch, s.channel = some ch → R s { s with channel := some (f ch) }) :
    Exec.Along (OnOwner R) (modifyChannel f) := by
  rintro ⟨c, s⟩
  unfold Session.modifyChannel Session.modifySession OnOwner
  simp only [Exec.modify_apply]
  cases hchannel : s.channel with
  | none =>
      have hsame : { s with channel := Option.map f none } = s := by rw [Option.map_none, ← hchannel]
      rw [hsame]
      exact Std.Refl.refl s
  | some ch => exact hf s ch hchannel

theorem KeptByAsk.modifyChannel (f : Channel → Channel) (hf : ∀ ch, SameChannel ch (f ch)) :
    Exec.Along (OnOwner R) (modifyChannel f) :=
  onOwner_modifyChannel f fun s ch hchannel => hkept.channel s ch (f ch) hchannel (hf ch)

theorem KeptByAsk.react (event : ChannelEvent) : Exec.Along (OnOwner R) (react event) := by
  cases event with
  | cancelled topic => exact hkept.modifyChannel _ fun _ => ⟨rfl, rfl, rfl, rfl⟩
  | answered count =>
      apply Exec.along_get_bind
      intro w
      cases w.owner.channel with
      | none => exact Exec.along_pure _
      | some channel =>
          dsimp only
          cases channel.pending with
          | nil => exact Exec.along_pure _
          | cons request rest =>
              apply Exec.along_bind (hkept.modifyChannel _ fun ch => ?_) fun _ => ?_
              · cases request <;> exact ⟨rfl, rfl, rfl, rfl⟩
              · split
                · exact fun w => hkept.answer w.owner _
                · exact Exec.along_pure _
  | failed message =>
      apply Exec.along_get_bind
      intro w
      cases w.owner.channel with
      | none => exact Exec.along_pure _
      | some channel =>
          apply Exec.along_bind (hkept.modifyChannel _ fun ch => ?_) fun _ => ?_
          · exact ⟨rfl, rfl, rfl, rfl⟩
          · split
            · exact Exec.along_pure _
            · exact fun w => hkept.answer w.owner _
  | received body redelivered outcome out =>
      intro w
      simp only [Session.react, Exec.get_bind]
      cases hchannel : w.owner.channel with
      | none => exact Std.Refl.refl (r := R) w.owner
      | some channel =>
          dsimp only
          split
          · unfold Session.modifySession
            rw [Exec.modify_bind]
            exact hkept.received w.owner channel body redelivered _ hchannel
              (handled_onReceived _ outcome out ⟨w.connection, arrived _ _ _ w.owner⟩)
          · exact Std.Refl.refl (r := R) w.owner

section Reactions

variable (hreact : ∀ event, Exec.Along (OnOwner R) (Session.react event))
include hreact

omit hkept in
theorem onOwner_callbacks (calls : List (Callback ChannelEvent)) :
    Exec.Along (OnOwner R) (AmqpConnection.callbacks Session.react calls) := by
  induction calls with
  | nil => exact Exec.along_pure _
  | cons first rest ih =>
      apply Exec.along_bind ?_ fun _ => ih
      cases first with
      | channel event => exact hreact event
      | onData out => exact onOwner_onWire _
      | onReady => exact onOwner_onWire _
      | onError message => exact onOwner_onWire _
      | onClosed => exact onOwner_onWire _

omit hkept in
theorem onOwner_pumpOnce (turn : Turn ChannelEvent) :
    Exec.Along (OnOwner R) (AmqpConnection.pumpOnce Session.react turn) := by
  cases turn with
  | expired drained => exact Exec.along_bind (onOwner_onWire _) fun _ => Exec.along_pure _
  | completed result parse =>
      apply Exec.along_bind (onOwner_onWire _)
      intro arrived
      cases arrived with
      | false => exact Exec.along_pure _
      | true =>
          apply Exec.along_bind (onOwner_callbacks hreact parse.callbacks)
          exact fun _ => Exec.along_bind (onOwner_onWire _) fun _ => Exec.along_pure _

omit hkept in
/-- What the callbacks keep of the owner's state, a wait keeps. -/
theorem onOwner_pumpUntil (predicate : Wire Session → Bool) (turns : List (Turn ChannelEvent)) :
    Exec.Along (OnOwner R) (AmqpConnection.pumpUntil Session.react predicate turns) := by
  induction turns with
  | nil => exact Exec.along_get_bind fun _ => Exec.along_pure _
  | cons turn rest ih =>
      apply Exec.along_get_bind
      intro w
      split
      · exact Exec.along_pure _
      apply Exec.along_bind (onOwner_pumpOnce hreact turn)
      intro served
      cases served with
      | true => exact ih
      | false => exact Exec.along_get_bind fun _ => Exec.along_pure _

end Reactions

theorem KeptByAsk.pumpUntil (predicate : Wire Session → Bool) (turns : List (Turn ChannelEvent)) :
    Exec.Along (OnOwner R) (AmqpConnection.pumpUntil Session.react predicate turns) :=
  onOwner_pumpUntil hkept.react predicate turns

theorem KeptByAsk.closeConnection (out : Outbound) (turns : List (Turn ChannelEvent)) :
    Exec.Along (OnOwner R) (AmqpConnection.close Session.react out turns) := by
  apply Exec.along_get_bind
  intro w
  split
  · apply Exec.along_bind (onOwner_onWire _)
    intro _
    exact Exec.along_bind (hkept.pumpUntil _ turns) fun _ => onOwner_onWire _
  · exact onOwner_onWire _

theorem KeptByAsk.connectConnection (env : ConnectEnv ChannelEvent) :
    Exec.Along (OnOwner R) (AmqpConnection.connect Session.react env) := by
  apply Exec.along_bind (onOwner_onWire _)
  intro _
  apply Exec.along_bind (onOwner_onWire _)
  intro _
  apply Exec.along_bind (hkept.pumpUntil _ env.handshake)
  intro settled
  apply Exec.along_get_bind
  intro w
  dsimp only
  repeat' split
  all_goals first | exact Exec.along_throw _ | exact Exec.along_pure _

theorem KeptByAsk.destroyConnection (env : TeardownEnv ChannelEvent) :
    Exec.Along (OnOwner R) (AmqpConnection.destroy Session.react env) := by
  have hswallow : Exec.Along (OnOwner R)
      (swallow (AmqpConnection.close Session.react env.close env.turns)) := by
    apply Exec.along_tryCatch (hkept.closeConnection env.close env.turns)
    intro e
    split
    · exact Exec.along_throw _
    · exact Exec.along_pure _
  apply Exec.along_bind hswallow
  exact fun _ => Exec.along_tryCatch (onOwner_onWire _) fun _ => Exec.along_throw _

theorem KeptByAsk.post (request : Request) (out : Outbound) :
    Exec.Along (OnOwner R) (post request out) := by
  apply Exec.along_bind (onOwner_emit out)
  intro sent
  split
  · apply Exec.along_bind (hkept.modifyChannel _ fun ch => ?_) fun _ => Exec.along_pure _
    exact ⟨rfl, rfl, rfl, rfl⟩
  · exact Exec.along_pure _

theorem KeptByAsk.submit (request : Request) (out : Outbound) :
    Exec.Along (OnOwner R) (submit request out) := by
  apply Exec.along_bind (hkept.post request out)
  intro sent
  split
  · exact Exec.along_pure _
  · exact fun w => hkept.answer w.owner _

theorem KeptByAsk.ask (request : Request) (wait : Wait) (refused : String → String)
    (timedOut : String) : Exec.Along (OnOwner R) (ask request wait refused timedOut) := by
  refine Exec.along_bind (fun w => ?_) fun _ => ?_
  · exact hkept.answer w.owner _
  apply Exec.along_bind (hkept.submit request wait.out)
  intro _
  apply Exec.along_bind (hkept.pumpUntil _ wait.turns)
  intro _
  apply Exec.along_get_bind
  intro w
  dsimp only
  repeat' split
  all_goals first | exact Exec.along_throw _ | exact Exec.along_pure _

end KeptByAsk

section Kept

variable {R : Session → Session → Prop} [IsPreorder Session R] (hkept : Kept R)
include hkept

theorem Kept.declareDestination (topic : Topic) (options : TopicOptions) (env : DestinationEnv) :
    Exec.Along (OnOwner R) (declareDestination topic options env) := by
  have hgroup : Exec.Along (OnOwner R) (declareGroup options env.exchange) := by
    unfold Session.declareGroup
    split
    · exact Exec.along_pure _
    · exact Exec.along_bind (hkept.ask _ _ _ _) fun _ => Exec.along_pure _
  have hbind : Exec.Along (OnOwner R) (bindGroup topic options env.bind) := by
    unfold Session.bindGroup
    split
    · exact Exec.along_pure _
    · exact Exec.along_bind (hkept.ask _ _ _ _) fun _ w => hkept.routes w.owner _
  apply Exec.along_bind hgroup
  intro _
  apply Exec.along_bind (hkept.ask _ _ _ _)
  intro waiting
  exact Exec.along_bind hbind fun _ => Exec.along_pure _

theorem Kept.declareForensic (topic : Topic) (options : TopicOptions) (env : DestinationEnv) :
    Exec.Along (OnOwner R) (declareForensic topic options env) := by
  unfold Session.declareForensic
  split
  · exact Exec.along_bind (hkept.declareDestination _ _ _) fun _ => Exec.along_pure _
  · exact Exec.along_pure _

end Kept

/-- The writes of a declaration and of the start of consumption. -/
structure KeptByConsume (R : Session → Session → Prop) : Prop extends Kept R where
  declared : ∀ s ch pair, s.channel = some ch →
    R s { s with channel := some { ch with declared := ch.declared ++ [pair] } }
  consumed : ∀ s ch topic, s.channel = some ch →
    R s { s with channel := some { ch with consumed := ch.consumed ++ [topic] } }

/-- The writes of a reconnection attempt that gets to its end as well, but for the
one that counts it. -/
structure KeptByAttempt (R : Session → Session → Prop) : Prop extends KeptByConsume R where
  opened : ∀ s usable, R s { s with
    channel := some { generation := s.generation + 1, usable := usable }
    generation := s.generation + 1 }
  dropped : ∀ s, R s { s with channel := none }
  forgotten : ∀ s, R s { s with outstandingDeferred := ∅ }

/-- The writes of the methods that neither send nor settle nor reconnect nor set a
policy, but for those to the memory. -/
structure KeptByCall (R : Session → Session → Prop) : Prop extends KeptByAttempt R where
  endpoint : ∀ s endpoint, R s { s with endpoint := endpoint }

/-- The writes of `settle`. -/
structure KeptBySettle (R : Session → Session → Prop) : Prop where
  resolved : ∀ s tag settled, R s { s with
    outstandingDeferred := s.outstandingDeferred.erase tag, settled := settled }
  performed : ∀ s tag s', Performed tag s s' → R s s'

/-- The writes of a reconnection as well. -/
structure KeptByReconnect (R : Session → Session → Prop) : Prop extends KeptByCall R where
  backoff : ∀ s failedAttempts nextAttempt attempts, R s { s with
    failedAttempts := failedAttempts, nextAttempt := nextAttempt, attempts := attempts }
  reconnected : ∀ s, R s { s with
    failedAttempts := 0, stats.reconnects := s.stats.reconnects + 1 }

/-- The writes of the methods other than `send` and `settle`, but for those to the
memory. -/
structure KeptByPump (R : Session → Session → Prop) : Prop extends KeptByReconnect R where
  rethrown : ∀ s what, s.handlerFailure = some what →
    R s { s with handlerFailure := none, rethrown := what :: s.rethrown }
  policy : ∀ s policy, R s { s with policy := policy }

/-- The writes of all methods, but for those to the memory. -/
structure KeptByAll (R : Session → Session → Prop) : Prop extends
    KeptByPump R, KeptBySettle R where
  sent : ∀ s publication, R s { s with
    published := publication :: s.published, stats.sent := s.stats.sent + 1 }

section KeptByConsume

variable {R : Session → Session → Prop} [IsPreorder Session R] (hkept : KeptByConsume R)
include hkept

theorem KeptByConsume.declare (topic : Topic) (options : TopicOptions) (env : DeclareEnv) :
    Exec.Along (OnOwner R) (declare topic options env) := by
  apply Exec.along_bind (onOwner_modifyChannel _ fun s ch => hkept.declared s ch (topic, options))
  intro _
  apply Exec.along_bind (hkept.declareForensic topic options env.forensic)
  exact fun _ => hkept.declareDestination topic options env.destination

theorem KeptByConsume.startConsuming (env : ConsumeEnv) :
    Exec.Along (OnOwner R) (startConsuming env) := by
  apply Exec.along_get_bind
  intro w
  apply Exec.along_bind
  · exact onOwner_modifyChannel _ fun s ch => hkept.consumed s ch w.owner.memory.topic
  intro _
  apply Exec.along_bind (hkept.post _ _)
  intro _
  exact Exec.along_bind (hkept.ask _ _ _ _) fun _ => Exec.along_pure _

end KeptByConsume

theorem KeptByAttempt.openChannel {R : Session → Session → Prop} [IsPreorder Session R]
    (hkept : KeptByAttempt R) (out : Outbound) : Exec.Along (OnOwner R) (openChannel out) := by
  have hsend : Exec.Along (OnOwner R) (sendOpen out) := by
    apply Exec.along_get_bind
    intro w
    split
    · exact onOwner_onWire _
    · exact Exec.along_pure _
  apply Exec.along_bind hsend
  exact fun _ w => hkept.opened w.owner _

/-- What a session remembers for a reconnection, and how many there have been. -/
def books (s : Session) : Memory × Nat := (s.memory, s.stats.reconnects)

theorem keptByAttempt_books : KeptByAttempt (Exec.Same books) where
  answer := fun _ _ => rfl
  routes := fun _ _ => rfl
  channel := fun _ _ _ _ _ => rfl
  received := fun _ _ _ _ _ _ hhandled => by rcases hhandled with _ | ⟨_ | _ | _ | _⟩ <;> rfl
  declared := fun _ _ _ _ => rfl
  consumed := fun _ _ _ _ => rfl
  opened := fun _ _ => rfl
  dropped := fun _ => rfl
  forgotten := fun _ => rfl

/-! ## The connection under the callbacks -/

section Connection

variable {R : Wire Session → Wire Session → Prop} [IsPreorder (Wire Session) R]
  (howner : ∀ w s, R w { w with owner := s })
  (hdata : ∀ out, Exec.Along R (onWire (onData out)))
include hdata

theorem along_emit (out : Outbound) : Exec.Along R (emit out) := by
  apply Exec.along_get_bind
  intro w
  cases w.owner.channel with
  | none => exact Exec.along_pure _
  | some channel =>
      dsimp only
      split
      · exact Exec.along_bind (hdata out) fun _ => Exec.along_pure _
      · exact Exec.along_pure _

include howner

omit hdata [IsPreorder (Wire Session) R] in
theorem along_modifySession (f : Session → Session) : Exec.Along R (modifySession f) :=
  fun w => howner w (f w.owner)

theorem along_resolve (tag : Nat) (disposition : Disposition) (out : Outbound) :
    Exec.Along R (resolve tag disposition out) := by
  refine Exec.along_bind (fun w => howner w _) fun _ => ?_
  apply Exec.along_bind (along_emit hdata out)
  intro sent
  split
  · exact fun w => howner w _
  · exact Exec.along_pure _

theorem along_perform (tag : Nat) (out : Outbound) (disposition : Disposition) :
    Exec.Along R (perform tag out disposition) := by
  have hresolve := along_resolve howner hdata tag
  cases disposition with
  | ack => exact Exec.along_bind (hresolve _ out) fun _ w => howner w _
  | requeue => exact Exec.along_bind (hresolve _ out) fun _ w => howner w _
  | reject => exact Exec.along_bind (hresolve _ out) fun _ w => howner w _
  | deferred => exact fun w => howner w _

theorem along_react (event : ChannelEvent) : Exec.Along R (react event) := by
  cases event with
  | cancelled topic => exact fun w => howner w _
  | answered count =>
      apply Exec.along_get_bind
      intro w
      split
      · exact Exec.along_pure _
      split
      · exact Exec.along_pure _
      apply Exec.along_bind (along_modifySession howner _)
      intro _
      split
      · exact fun w => howner w _
      · exact Exec.along_pure _
  | failed message =>
      apply Exec.along_get_bind
      intro w
      split
      · exact Exec.along_pure _
      apply Exec.along_bind (along_modifySession howner _)
      intro _
      split
      · exact Exec.along_pure _
      · exact fun w => howner w _
  | received body redelivered outcome out =>
      apply Exec.along_get_bind
      intro w
      split
      · exact Exec.along_pure _
      split
      · apply Exec.along_bind (along_modifySession howner _)
        intro _
        cases outcome with
        | threw what => exact fun w => howner w _
        | returned disposition => exact along_perform howner hdata _ out disposition
      · exact Exec.along_pure _

theorem along_post (request : Request) (out : Outbound) : Exec.Along R (post request out) := by
  apply Exec.along_bind (along_emit hdata out)
  intro sent
  split
  · exact Exec.along_bind (along_modifySession howner _) fun _ => Exec.along_pure _
  · exact Exec.along_pure _

variable (hpump : ∀ predicate turns, Exec.Along R (pumpUntil react predicate turns))
include hpump

theorem along_ask (request : Request) (wait : Wait) (refused : String → String)
    (timedOut : String) : Exec.Along R (ask request wait refused timedOut) := by
  have hsubmit : Exec.Along R (submit request wait.out) := by
    apply Exec.along_bind (along_post howner hdata request wait.out)
    intro sent
    split
    · exact Exec.along_pure _
    · exact along_modifySession howner _
  apply Exec.along_bind (along_modifySession howner _)
  intro _
  apply Exec.along_bind hsubmit
  intro _
  apply Exec.along_bind (hpump _ wait.turns)
  intro _
  apply Exec.along_get_bind
  intro w
  dsimp only
  repeat' split
  all_goals first | exact Exec.along_throw _ | exact Exec.along_pure _

theorem along_declareDestination (topic : Topic) (options : TopicOptions)
    (env : DestinationEnv) : Exec.Along R (declareDestination topic options env) := by
  have hask := along_ask howner hdata hpump
  have hgroup : Exec.Along R (declareGroup options env.exchange) := by
    unfold Session.declareGroup
    split
    · exact Exec.along_pure _
    · exact Exec.along_bind (hask _ _ _ _) fun _ => Exec.along_pure _
  have hbind : Exec.Along R (bindGroup topic options env.bind) := by
    unfold Session.bindGroup
    split
    · exact Exec.along_pure _
    · exact Exec.along_bind (hask _ _ _ _) fun _ => along_modifySession howner _
  apply Exec.along_bind hgroup
  intro _
  apply Exec.along_bind (hask _ _ _ _)
  intro waiting
  exact Exec.along_bind hbind fun _ => Exec.along_pure _

theorem along_declare (topic : Topic) (options : TopicOptions) (env : DeclareEnv) :
    Exec.Along R (declare topic options env) := by
  have hdestination := along_declareDestination howner hdata hpump
  have hforensic : Exec.Along R (declareForensic topic options env.forensic) := by
    unfold Session.declareForensic
    split
    · exact Exec.along_bind (hdestination _ _ _) fun _ => Exec.along_pure _
    · exact Exec.along_pure _
  apply Exec.along_bind (along_modifySession howner _)
  intro _
  exact Exec.along_bind hforensic fun _ => hdestination topic options env.destination

theorem along_startConsuming (env : ConsumeEnv) : Exec.Along R (startConsuming env) := by
  apply Exec.along_get_bind
  intro w
  apply Exec.along_bind (along_modifySession howner _)
  intro _
  apply Exec.along_bind (along_post howner hdata _ _)
  intro _
  exact Exec.along_bind (along_ask howner hdata hpump _ _ _ _) fun _ => Exec.along_pure _

end Connection

theorem steps_onData (out : Outbound) :
    Exec.Along (WireSteps Event.OfServing) (onWire (onData out) : Serving Session Unit) :=
  steps_onWire fun c => Steps.event c (e := .onData out) trivial

theorem steps_react (event : ChannelEvent) :
    Exec.Along (WireSteps Event.OfServing) (react event) :=
  along_react (fun w _ => Steps.refl w.connection) steps_onData event

end Session

namespace AmqpCppTransport

open Session

/-- What was served by a call that returned. -/
theorem serve_ok {α : Type} {x : Serving Session α} {t t' : AmqpCppTransport} {a : α}
    (h : serve x t = (.ok a, t')) : ∃ c c', t.connection = some c ∧
      x ⟨c, t.session⟩ = (.ok a, ⟨c', t'.session⟩) ∧ t'.connection = some c' := by
  unfold serve at h
  cases hconnection : t.connection with
  | none =>
      rw [hconnection] at h
      exact absurd (congrArg Prod.fst h) (by simp)
  | some c =>
      rw [hconnection] at h
      obtain ⟨hresult, rfl⟩ := Prod.mk.inj h
      exact ⟨c, _, rfl, Prod.ext hresult rfl, rfl⟩

theorem modifySession_ok {f : Session → Session} {t t' : AmqpCppTransport}
    (h : modifySession f t = (.ok (), t')) : t' = { t with session := f t.session } :=
  ((Prod.mk.inj h).2).symm

/-- A relation on sessions, read on transports. -/
def OnSession (R : Session → Session → Prop) (t t' : AmqpCppTransport) : Prop :=
  R t.session t'.session

instance {R : Session → Session → Prop} [IsPreorder Session R] :
    IsPreorder AmqpCppTransport (OnSession R) where
  refl t := Std.Refl.refl t.session
  trans t u v := IsTrans.trans t.session u.session v.session

section Attempt

variable {R : Session → Session → Prop} [IsPreorder Session R]

theorem onSession_serve {α : Type} {x : Serving Session α} (hx : Exec.Along (OnOwner R) x) :
    Exec.Along (OnSession R) (serve x) := by
  intro t
  unfold serve
  cases t.connection with
  | none => exact Std.Refl.refl (r := R) t.session
  | some c => exact hx ⟨c, t.session⟩

theorem onSession_requireChannel (method : String) :
    Exec.Along (OnSession R) (requireChannel method) := by
  apply Exec.along_get_bind
  intro t
  split
  · exact Exec.along_throw _
  · exact Exec.along_pure _

theorem KeptByAsk.resetConnection (hkept : KeptByAsk R) (env : TeardownEnv ChannelEvent) :
    Exec.Along (OnSession R) (resetConnection env) := by
  apply Exec.along_get_bind
  intro t
  cases t.connection with
  | none => exact Exec.along_pure _
  | some c =>
      apply Exec.along_bind (onSession_serve (hkept.destroyConnection env))
      intro _ t
      have hdetached := hkept.modifyChannel (fun ch => { ch with usable := false })
        (fun _ => ⟨rfl, rfl, rfl, rfl⟩) ⟨{}, t.session⟩
      exact hdetached

theorem KeptByAsk.closeConnection (hkept : KeptByAsk R) (env : CloseEnv) :
    Exec.Along (OnSession R) (closeConnection env) := by
  apply Exec.along_get_bind
  intro t
  split
  · exact onSession_serve (hkept.closeConnection env.close env.turns)
  · exact Exec.along_pure _

theorem KeptByConsume.redeclare (hkept : KeptByConsume R) (env : DeclareEnv) :
    Exec.Along (OnSession R) (redeclare env) := by
  apply Exec.along_get_bind
  intro t
  dsimp only
  split
  · exact Exec.along_bind (onSession_serve (hkept.declare _ _ _)) fun _ => Exec.along_pure _
  · exact Exec.along_pure _

theorem KeptByConsume.reconsume (hkept : KeptByConsume R) (env : ConsumeEnv) :
    Exec.Along (OnSession R) (reconsume env) := by
  apply Exec.along_get_bind
  intro t
  split
  · exact onSession_serve (hkept.startConsuming _)
  · exact Exec.along_pure _

variable (hkept : KeptByAttempt R)
include hkept

theorem KeptByAttempt.resetChannel (out : Outbound) :
    Exec.Along (OnSession R) (resetChannel out) := by
  apply Exec.along_get_bind
  intro t
  split
  · apply Exec.along_bind
    · exact Exec.along_tryCatch (onSession_serve (onOwner_emit out)) fun _ => Exec.along_throw _
    · exact fun _ t => hkept.dropped t.session
  · exact fun t => hkept.dropped t.session

theorem KeptByAttempt.openConnection (env : OpenEnv) :
    Exec.Along (OnSession R) (openConnection env) := by
  apply Exec.along_bind (KeptByAsk.resetConnection hkept.toKeptByAsk env.replaced)
  intro _
  refine Exec.along_bind (fun t => ?_) fun _ => ?_
  · exact Std.Refl.refl (r := R) t.session
  apply Exec.along_bind (onSession_serve (hkept.connectConnection env.connect))
  exact fun _ => onSession_serve (hkept.openChannel env.channelOpen)

theorem KeptByAttempt.destroy (env : CloseEnv) : Exec.Along (OnSession R) (destroy env) := by
  apply Exec.along_tryCatch
  · apply Exec.along_bind (KeptByAttempt.resetChannel hkept env.channelClose)
    exact fun _ => KeptByAsk.resetConnection hkept.toKeptByAsk _
  · intro e
    split
    · exact Exec.along_throw _
    · exact Exec.along_pure _

end Attempt

theorem requireChannel_bind {α : Type} (method : String) (f : Unit → Method α)
    (t : AmqpCppTransport) :
    (requireChannel method >>= f) t =
      if t.session.channel.isNone then
        (.error (.logicError (method ++ "() called before connect()")), t)
      else f () t := by
  unfold requireChannel
  rw [Exec.bind_apply, Exec.get_bind]
  cases t.session.channel <;> rfl

/-- A settlement is begun on the state without its tag. -/
def unsettled (tag : Nat) (disposition : Disposition) (t : AmqpCppTransport) :
    AmqpCppTransport :=
  { t with session := { t.session with
      outstandingDeferred := t.session.outstandingDeferred.erase tag
      settled := t.session.channel.toList.map (fun ch => (⟨ch.generation, tag⟩, disposition)) ++
        t.session.settled } }

/-- `settle` throws before it writes anything, or carries the disposition out. -/
theorem settle_or (tag : Nat) (disposition : Disposition) (out : Outbound)
    (t : AmqpCppTransport) :
    (∃ exn, exn ≠ .terminate ∧ settle tag disposition out t = (.error exn, t)) ∨
      tag ∈ t.session.outstandingDeferred ∧ disposition ≠ .deferred ∧
        t.session.channel.isSome = true ∧
        settle tag disposition out t =
          serve (perform tag out disposition) (unsettled tag disposition t) := by
  simp only [settle, requireChannel_bind, Exec.get_bind]
  split
  · exact .inl ⟨_, by simp, rfl⟩
  next hchannel =>
  split
  · exact .inl ⟨_, by simp, rfl⟩
  next hfinal =>
  split
  · exact .inl ⟨_, by simp, rfl⟩
  next htag =>
  exact .inr ⟨not_not.mp htag, hfinal, by simpa [Option.isSome_iff_ne_none] using hchannel, rfl⟩

/-- `settle` leaves the session alone, or erases the tag and carries the disposition out. -/
theorem settle_cases (tag : Nat) (disposition : Disposition) (out : Outbound)
    (t : AmqpCppTransport) :
    (settle tag disposition out t).2.session = t.session ∨
      tag ∈ t.session.outstandingDeferred ∧ ∃ settled s₁,
        s₁ = { t.session with
          outstandingDeferred := t.session.outstandingDeferred.erase tag, settled := settled } ∧
        ((settle tag disposition out t).2.session = s₁ ∨
          Performed tag s₁ (settle tag disposition out t).2.session) := by
  rcases settle_or tag disposition out t with ⟨exn, -, hrun⟩ | ⟨htag, -, -, hrun⟩
  · rw [hrun]
    exact .inl rfl
  refine .inr ⟨htag, _, (unsettled tag disposition t).session, rfl, ?_⟩
  rw [hrun]
  unfold serve unsettled
  dsimp only
  cases t.connection with
  | none => exact .inl rfl
  | some c => exact .inr (performed_perform tag out disposition ⟨c, _⟩)

theorem KeptBySettle.settle {R : Session → Session → Prop} [IsPreorder Session R]
    (hkept : KeptBySettle R) (tag : Nat) (disposition : Disposition) (out : Outbound) :
    Exec.Along (OnSession R) (settle tag disposition out) := by
  intro t
  unfold OnSession
  rcases settle_cases tag disposition out t with hsame | ⟨-, settled, s₁, rfl, hrest⟩
  · rw [hsame]
    exact Std.Refl.refl (r := R) t.session
  · have hresolved := hkept.resolved t.session tag settled
    rcases hrest with hsame | hperformed
    · rw [hsame]
      exact hresolved
    · exact IsTrans.trans (r := R) _ _ _ hresolved (hkept.performed _ tag _ hperformed)

section Calls

variable {R : Session → Session → Prop} [IsPreorder Session R]

theorem onSession_send (hsent : ∀ s publication, R s { s with
      published := publication :: s.published, stats.sent := s.stats.sent + 1 })
    (topic : Topic) (payload : Bytes) (options : SendOptions) (out : Outbound) :
    Exec.Along (OnSession R) (send topic payload options out) := by
  apply Exec.along_bind (onSession_requireChannel _)
  intro _
  split
  · exact Exec.along_throw _
  apply Exec.along_bind (onSession_serve (onOwner_emit out))
  intro accepted
  split
  · refine Exec.along_bind (fun t => ?_) fun _ => Exec.along_pure _
    exact hsent t.session (publication t.session topic payload options)
  · exact Exec.along_pure _

variable (hkept : KeptByCall R)
include hkept

/-- Every call keeps the relation, if the writes to the memory that the call makes do,
and those of a send, a settlement, a policy and a reconnection. -/
theorem KeptByCall.call (call : Call)
    (hsend : ∀ topic payload options out, call = .send topic payload options out →
      Exec.Along (OnSession R) (send topic payload options out))
    (hensure : ∀ s topic options env, call = .ensureTopic topic options env →
      R s { s with memory := s.memory.ensure topic options })
    (hsubscribe : ∀ s topic callable env, call = .subscribe topic callable env →
      R s { s with handler := true, memory := s.memory.name topic } ∧
      R s { s with memory := s.memory.subscribe topic })
    (hclose : ∀ s env, call = .close env →
      R s { s with handler := false, memory := s.memory.close })
    (hsettle : ∀ tag disposition out, call = .settle tag disposition out →
      Exec.Along (OnSession R) (settle tag disposition out))
    (hpolicy : ∀ policy, call = .setReconnectPolicy policy →
      Exec.Along (OnSession R) (setReconnectPolicy policy))
    (hpump : ∀ env, call = .pump env → Exec.Along (OnSession R) (pump env)) :
    Exec.Along (OnSession R) call.method := by
  cases call with
  | connect endpoint env =>
      have hopen := KeptByAttempt.openConnection hkept.toKeptByAttempt env
      exact Exec.along_bind (fun t => hkept.endpoint t.session endpoint) fun _ => hopen
  | setReconnectPolicy policy =>
      exact hpolicy policy rfl
  | ensureTopic topic options env =>
      apply Exec.along_bind (onSession_requireChannel _)
      intro _
      apply Exec.along_bind (onSession_serve (hkept.declare topic options env))
      exact fun _ t => hensure t.session topic options env rfl
  | topicDepth topic env =>
      intro t
      rw [Call.method, Exec.map_apply]
      exact (Exec.along_bind (onSession_requireChannel _)
        fun _ => onSession_serve (hkept.ask _ _ _ _)) t
  | purgeTopic topic env =>
      intro t
      rw [Call.method, Exec.map_apply]
      exact (Exec.along_bind (onSession_requireChannel _)
        fun _ => onSession_serve (hkept.ask _ _ _ _)) t
  | send topic payload options out =>
      intro t
      rw [Call.method, Exec.map_apply]
      exact hsend topic payload options out rfl t
  | subscribe topic callable env =>
      apply Exec.along_bind (onSession_requireChannel _)
      intro _
      apply Exec.along_get_bind
      intro t
      split
      · exact Exec.along_throw _
      split
      · exact Exec.along_throw _
      refine Exec.along_bind (fun t => ?_) fun _ => ?_
      · exact (hsubscribe t.session topic callable env rfl).1
      apply Exec.along_bind (onSession_serve (hkept.startConsuming env))
      exact fun _ t => (hsubscribe t.session topic callable env rfl).2
  | settle tag disposition out => exact hsettle tag disposition out rfl
  | pump env =>
      intro t
      rw [Call.method, Exec.map_apply]
      exact hpump env rfl t
  | close env =>
      refine Exec.along_bind (fun t => ?_) fun _ => ?_
      · exact hkept.forgotten t.session
      apply Exec.along_bind (KeptByAttempt.resetChannel hkept.toKeptByAttempt env.channelClose)
      intro _
      apply Exec.along_bind (KeptByAsk.closeConnection hkept.toKeptByAsk env)
      exact fun _ t => hclose t.session env rfl
  | destroy env => exact KeptByAttempt.destroy hkept.toKeptByAttempt env

end Calls

section Reconnect

variable {R : Session → Session → Prop} [IsPreorder Session R] (hkept : KeptByReconnect R)
include hkept

theorem KeptByReconnect.attempt (env : ReconnectEnv) : Exec.Along (OnSession R) (attempt env) := by
  have hattempt := hkept.toKeptByAttempt
  apply Exec.along_bind (KeptByAttempt.resetChannel hattempt env.channelClose)
  intro _
  apply Exec.along_bind (KeptByAsk.resetConnection hattempt.toKeptByAsk env.teardown)
  intro _
  refine Exec.along_bind (fun t => ?_) fun _ => ?_
  · exact hkept.forgotten t.session
  apply Exec.along_bind (KeptByAttempt.openConnection hattempt env.opening)
  intro _
  apply Exec.along_bind (KeptByConsume.redeclare hattempt.toKeptByConsume env.declare)
  intro _
  apply Exec.along_bind (KeptByConsume.reconsume hattempt.toKeptByConsume env.consume)
  intro _
  refine Exec.along_bind (fun t => ?_) fun _ => Exec.along_pure _
  exact hkept.reconnected t.session

theorem KeptByReconnect.serviceReconnect (env : ReconnectEnv) :
    Exec.Along (OnSession R) (serviceReconnect env) := by
  apply Exec.along_get_bind
  intro t
  dsimp only
  split
  · exact Exec.along_pure _
  split
  · exact Exec.along_pure _
  split
  · exact Exec.along_pure _
  refine Exec.along_bind (fun t => ?_) fun _ => ?_
  · exact hkept.backoff t.session _ _ _
  apply Exec.along_tryCatch (KeptByReconnect.attempt hkept env)
  intro exn
  split
  · refine Exec.along_bind (fun t => ?_) fun _ => Exec.along_pure _
    exact hkept.backoff t.session _ _ _
  · exact Exec.along_throw _

end Reconnect

section Pump

variable {R : Session → Session → Prop} [IsPreorder Session R] (hkept : KeptByPump R)
include hkept

theorem KeptByPump.pump (env : PumpEnv) : Exec.Along (OnSession R) (pump env) := by
  have hserved : Exec.Along (OnSession R) (pumpServed env) := by
    intro t
    rw [pumpServed_apply]
    cases hfailure : t.session.handlerFailure with
    | some what => exact hkept.rethrown t.session what hfailure
    | none =>
        dsimp only
        split
        · exact KeptByReconnect.serviceReconnect hkept.toKeptByReconnect env.reconnect t
        · exact Std.Refl.refl (r := R) t.session
  apply Exec.along_get_bind
  intro t
  split
  · exact KeptByReconnect.serviceReconnect hkept.toKeptByReconnect env.reconnect
  · exact Exec.along_bind (onSession_serve (hkept.pumpUntil _ _)) fun _ => hserved

/-- Every call keeps the relation, if the writes to the memory that the call makes do
and those of a send and a settlement. -/
theorem KeptByPump.call (call : Call)
    (hsend : ∀ topic payload options out, call = .send topic payload options out →
      Exec.Along (OnSession R) (send topic payload options out))
    (hensure : ∀ s topic options env, call = .ensureTopic topic options env →
      R s { s with memory := s.memory.ensure topic options })
    (hsubscribe : ∀ s topic callable env, call = .subscribe topic callable env →
      R s { s with handler := true, memory := s.memory.name topic } ∧
      R s { s with memory := s.memory.subscribe topic })
    (hclose : ∀ s env, call = .close env →
      R s { s with handler := false, memory := s.memory.close })
    (hsettle : ∀ tag disposition out, call = .settle tag disposition out →
      Exec.Along (OnSession R) (settle tag disposition out)) :
    Exec.Along (OnSession R) call.method := by
  refine KeptByCall.call hkept.toKeptByCall call hsend hensure hsubscribe hclose hsettle
    (fun policy _ t => ?_) fun env _ => KeptByPump.pump hkept env
  exact IsTrans.trans (r := R) _ _ _ (hkept.policy t.session policy) (hkept.backoff _ 0 0 _)

end Pump

/-- Every call keeps the relation, if the writes to the memory that the call makes do. -/
theorem KeptByAll.call {R : Session → Session → Prop} [IsPreorder Session R]
    (hkept : KeptByAll R) (call : Call)
    (hensure : ∀ s topic options env, call = .ensureTopic topic options env →
      R s { s with memory := s.memory.ensure topic options })
    (hsubscribe : ∀ s topic callable env, call = .subscribe topic callable env →
      R s { s with handler := true, memory := s.memory.name topic } ∧
      R s { s with memory := s.memory.subscribe topic })
    (hclose : ∀ s env, call = .close env →
      R s { s with handler := false, memory := s.memory.close }) :
    Exec.Along (OnSession R) call.method :=
  KeptByPump.call hkept.toKeptByPump call
    (fun topic payload options out _ => onSession_send hkept.sent topic payload options out)
    hensure hsubscribe hclose
    fun tag disposition out _ => KeptBySettle.settle hkept.toKeptBySettle tag disposition out

end AmqpCppTransport

/-- What holds of a new session and is kept by every call holds in every state. -/
theorem Process.holds_run {P : Session → Prop} (hinit : P {})
    (hcall : ∀ call : AmqpCppTransport.Call,
      Exec.Along (AmqpCppTransport.OnSession (Exec.Keeps P)) call.method)
    (calls : List AmqpCppTransport.Call) : P (Process.machine.run calls).transport.session := by
  refine Machine.AlwaysFrom.last (P := fun p : Process => P p.transport.session)
    (Machine.AlwaysFrom.of_step calls (fun p call hp => ?_) hinit)
  unfold Process.machine Process.step
  dsimp only
  split
  · exact hcall call p.transport hp
  · exact hp

end Motus.Amqp
