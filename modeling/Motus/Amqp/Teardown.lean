import Motus.Amqp.Frame

set_option autoImplicit false

/-!
# Destructors that write

`~Channel` and `~Connection` hand a last frame to `onData`.  A write that fails
there throws unless `_closed` is set, and the throw ends the process.  Of the four
places where one of the two is destroyed, three are safe whatever happens: the
connection's own destructor closes it first, and `serviceReconnect` is entered
only once the connection is closed or gone.  The fourth is the channel in `close`
and in the destructor of the transport.
-/

namespace Motus.Amqp

open Motus.Foundation Motus.Transport

/-- The process does not end in `x`. -/
abbrev Survives {σ α : Type} (x : Exec Exn σ α) : Prop := Exec.Never Exn.terminate x

namespace AmqpConnection

theorem survives_onData (out : Outbound) : Survives (onData out) := by
  intro c
  rw [onData_apply]
  cases c.socket.write out with
  | none => exact fun h => absurd h (by simp)
  | some ec => cases c.closed <;> simp

/-- A write on a connection known to be closed does not throw. -/
theorem onData_of_closed {c : AmqpConnection} (h : c.closed = true) (out : Outbound) :
    (onData out c).1 = .ok () := by
  rw [onData_apply]
  cases c.socket.write out with
  | none => rfl
  | some ec => rw [h]; rfl

theorem survives_closeLibrary (out : Outbound) : Survives (closeLibrary out) := by
  intro c
  rw [closeLibrary_apply]
  split
  · exact survives_onData out _
  · exact fun h => absurd h (by simp)

theorem survives_readCompleted (result : ReadResult) : Survives (readCompleted result) := by
  intro c
  rw [readCompleted_apply]
  cases c.socket.read result with
  | data bytes => exact fun h => absurd h (by simp)
  | failed ec => cases hends : endsConnection ec.kind <;> simp [hends]

theorem survives_reachPeer (reach : Reach) : Survives (reachPeer reach) := by
  apply Exec.never_get_bind
  intro c
  cases reach with
  | unresolved ec => exact Exec.never_throw (by simp)
  | refused ec => exact Exec.never_bind (Exec.never_modify _) fun _ => Exec.never_throw (by simp)
  | connected => exact Exec.never_modify _

theorem survives_constructLibrary (header : Outbound) : Survives (constructLibrary header) :=
  Exec.never_bind (survives_onData header) fun _ => Exec.never_modify _

variable {κ τ : Type}

theorem survives_onWire {α : Type} {x : Exec Exn AmqpConnection α} (hx : Survives x) :
    Survives (onWire x : Serving τ α) := fun w => hx w.connection

section Serving

variable {react : κ → Serving τ Unit} (hreact : ∀ event, Survives (react event))
include hreact

theorem survives_callbacks (calls : List (Callback κ)) : Survives (callbacks react calls) := by
  induction calls with
  | nil => exact Exec.never_pure _
  | cons first rest ih =>
      apply Exec.never_bind ?_ fun _ => ih
      cases first with
      | onData out => exact survives_onWire (survives_onData out)
      | onReady => exact survives_onWire (Exec.never_modify _)
      | onError message => exact survives_onWire (Exec.never_modify _)
      | onClosed => exact survives_onWire (Exec.never_modify _)
      | channel event => exact hreact event

theorem survives_pumpOnce (turn : Turn κ) : Survives (pumpOnce react turn) := by
  cases turn with
  | expired drained =>
      exact Exec.never_bind (survives_onWire (Exec.never_modify _)) fun _ => Exec.never_pure _
  | completed result parse =>
      apply Exec.never_bind (survives_onWire (survives_readCompleted result))
      intro arrived
      cases arrived with
      | false => exact Exec.never_pure _
      | true =>
          apply Exec.never_bind (survives_callbacks hreact parse.callbacks)
          intro _
          exact Exec.never_bind (survives_onWire (Exec.never_modify _)) fun _ => Exec.never_pure _

theorem survives_pumpUntil (predicate : Wire τ → Bool) (turns : List (Turn κ)) :
    Survives (pumpUntil react predicate turns) := by
  induction turns with
  | nil => exact Exec.never_get_bind fun _ => Exec.never_pure _
  | cons turn rest ih =>
      apply Exec.never_get_bind
      intro w
      split
      · exact Exec.never_pure _
      apply Exec.never_bind (survives_pumpOnce hreact turn)
      intro served
      cases served with
      | true => exact ih
      | false => exact Exec.never_get_bind fun _ => Exec.never_pure _

theorem survives_close (out : Outbound) (turns : List (Turn κ)) :
    Survives (close react out turns) := by
  have hreturn : Survives (onWire closeReturned : Serving τ Unit) :=
    survives_onWire (Exec.never_modify _)
  apply Exec.never_get_bind
  intro w
  split
  · apply Exec.never_bind (survives_onWire (survives_closeLibrary out))
    intro _
    exact Exec.never_bind (survives_pumpUntil hreact _ turns) fun _ => hreturn
  · exact hreturn

theorem survives_connect (env : ConnectEnv κ) : Survives (connect react env) := by
  apply Exec.never_bind (survives_onWire (survives_reachPeer env.reach))
  intro _
  apply Exec.never_bind (survives_onWire (survives_constructLibrary env.header))
  intro _
  apply Exec.never_bind (survives_pumpUntil hreact _ env.handshake)
  intro settled
  apply Exec.never_get_bind
  intro w
  dsimp only
  repeat' split
  all_goals first | exact Exec.never_throw (by simp) | exact Exec.never_pure _

omit hreact in
/-- After its own `close`, a connection is closed or its protocol object is not
usable, whether `close` returned or threw. -/
theorem unwritable_close (hsteps : ∀ event, Exec.Along (WireSteps Event.OfServing) (react event))
    (out : Outbound) (turns : List (Turn κ)) (w : Wire τ) :
    (close react out turns w).2.connection.closed = true ∨
      (close react out turns w).2.connection.library ≠ .usable := by
  have hsame := steps_close hsteps out turns w
  by_cases hopen : w.connection.library ≠ .absent ∧ w.connection.closed = false
  · right
    have hafter : ((onWire (closeLibrary out) : Serving τ Unit) w).2.connection.library ≠
        .usable := by
      simp only [onWire, Exec.zoom_apply, closeLibrary_apply]
      split
      · rw [onData_apply]
        cases w.connection.socket.write out <;> simp [note]
      · assumption
    have hrest : Exec.Along (WireSteps Event.OfServing) (do
        let _ ← pumpUntil react (·.connection.closed) turns
        onWire closeReturned) :=
      Exec.along_bind (steps_pumpUntil hsteps _ turns) fun _ =>
        steps_onWire fun c => Steps.event c (e := .closeReturned) trivial
    unfold close
    rw [Exec.get_bind, if_pos hopen, Exec.bind_apply]
    rcases hrun : (onWire (closeLibrary out) : Serving τ Unit) w with ⟨r, w'⟩
    rw [hrun] at hafter
    cases r with
    | error e => exact hafter
    | ok _ => exact (hrest w').library hafter
  · by_cases hclosed : w.connection.closed = true
    · exact Or.inl (hsame.closed hclosed)
    · right
      apply hsame.library
      intro husable
      exact hopen ⟨by rw [husable]; decide, by simpa using hclosed⟩

/-- The destruction of a connection does not end the process, whatever its state. -/
theorem survives_destroy (hsteps : ∀ event, Exec.Along (WireSteps Event.OfServing) (react event))
    (env : TeardownEnv κ) : Survives (destroy react env) := by
  intro w
  have hclose := survives_close hreact env.close env.turns w
  have hafter := unwritable_close hsteps env.close env.turns w
  have hswallow : swallow (close react env.close env.turns) w =
      (.ok (), (close react env.close env.turns w).2) := by
    unfold swallow
    rw [Exec.tryCatch_apply]
    rcases hrun : close react env.close env.turns w with ⟨r, w'⟩
    rw [hrun] at hclose
    cases r with
    | ok _ => rfl
    | error e =>
        have he : e ≠ .terminate := fun heq => hclose (congrArg Except.error heq)
        simp [he]
  have hlast : ∀ c : AmqpConnection, c.closed = true ∨ c.library ≠ .usable →
      (closeLibrary env.last c).1 = .ok () := by
    intro c hc
    rw [closeLibrary_apply]
    split
    · rename_i husable
      exact onData_of_closed (c := { c with library := .unusable })
        (hc.resolve_right fun h => h husable) env.last
    · rfl
  unfold destroy
  rw [Exec.bind_ok hswallow]
  unfold fromDestructor
  rw [Exec.tryCatch_apply]
  simp only [onWire, Exec.zoom_apply]
  rw [hlast _ hafter]
  exact fun h => absurd h (by simp)

end Serving

end AmqpConnection

namespace Session

open AmqpConnection

theorem survives_modifySession (f : Session → Session) : Survives (modifySession f) :=
  Exec.never_modify _

theorem survives_emit (out : Outbound) : Survives (emit out) := by
  apply Exec.never_get_bind
  intro w
  split
  · exact Exec.never_pure _
  split
  · exact Exec.never_bind (survives_onWire (survives_onData out)) fun _ => Exec.never_pure _
  · exact Exec.never_pure _

theorem survives_resolve (tag : Nat) (disposition : Disposition) (out : Outbound) :
    Survives (resolve tag disposition out) := by
  apply Exec.never_bind (Exec.never_modify _)
  intro _
  apply Exec.never_bind (survives_emit out)
  intro sent
  split
  · exact survives_modifySession _
  · exact Exec.never_pure _

theorem survives_perform (tag : Nat) (out : Outbound) (disposition : Disposition) :
    Survives (perform tag out disposition) := by
  cases disposition with
  | ack => exact Exec.never_bind (survives_resolve tag _ out) fun _ => survives_modifySession _
  | requeue => exact Exec.never_bind (survives_resolve tag _ out) fun _ => survives_modifySession _
  | reject => exact Exec.never_bind (survives_resolve tag _ out) fun _ => survives_modifySession _
  | deferred => exact survives_modifySession _

theorem survives_react (event : ChannelEvent) : Survives (react event) := by
  cases event with
  | cancelled topic => exact survives_modifySession _
  | answered count =>
      apply Exec.never_get_bind
      intro w
      split
      · exact Exec.never_pure _
      split
      · exact Exec.never_pure _
      apply Exec.never_bind (survives_modifySession _)
      intro _
      split
      · exact survives_modifySession _
      · exact Exec.never_pure _
  | failed message =>
      apply Exec.never_get_bind
      intro w
      split
      · exact Exec.never_pure _
      apply Exec.never_bind (survives_modifySession _)
      intro _
      split
      · exact Exec.never_pure _
      · exact survives_modifySession _
  | received body redelivered outcome out =>
      apply Exec.never_get_bind
      intro w
      split
      · exact Exec.never_pure _
      split
      · apply Exec.never_bind (survives_modifySession _)
        intro _
        cases outcome with
        | threw what => exact survives_modifySession _
        | returned disposition => exact survives_perform _ out disposition
      · exact Exec.never_pure _

theorem survives_post (request : Request) (out : Outbound) : Survives (post request out) := by
  apply Exec.never_bind (survives_emit out)
  intro sent
  split
  · exact Exec.never_bind (survives_modifySession _) fun _ => Exec.never_pure _
  · exact Exec.never_pure _

theorem survives_ask (request : Request) (wait : Wait) (refused : String → String)
    (timedOut : String) : Survives (ask request wait refused timedOut) := by
  have hsubmit : Survives (submit request wait.out) := by
    apply Exec.never_bind (survives_post request wait.out)
    intro sent
    split
    · exact Exec.never_pure _
    · exact survives_modifySession _
  apply Exec.never_bind (survives_modifySession _)
  intro _
  apply Exec.never_bind hsubmit
  intro _
  apply Exec.never_bind (survives_pumpUntil survives_react _ wait.turns)
  intro _
  apply Exec.never_get_bind
  intro w
  dsimp only
  repeat' split
  all_goals first | exact Exec.never_throw (by simp) | exact Exec.never_pure _

theorem survives_declareDestination (topic : Topic) (options : TopicOptions)
    (env : DestinationEnv) : Survives (declareDestination topic options env) := by
  have hgroup : Survives (declareGroup options env.exchange) := by
    unfold declareGroup
    split
    · exact Exec.never_pure _
    · exact Exec.never_bind (survives_ask _ _ _ _) fun _ => Exec.never_pure _
  have hbind : Survives (bindGroup topic options env.bind) := by
    unfold bindGroup
    split
    · exact Exec.never_pure _
    · exact Exec.never_bind (survives_ask _ _ _ _) fun _ => survives_modifySession _
  apply Exec.never_bind hgroup
  intro _
  apply Exec.never_bind (survives_ask _ _ _ _)
  intro waiting
  exact Exec.never_bind hbind fun _ => Exec.never_pure _

theorem survives_declare (topic : Topic) (options : TopicOptions) (env : DeclareEnv) :
    Survives (declare topic options env) := by
  have hforensic : Survives (declareForensic topic options env.forensic) := by
    unfold declareForensic
    split
    · exact Exec.never_bind (survives_declareDestination _ _ _) fun _ => Exec.never_pure _
    · exact Exec.never_pure _
  apply Exec.never_bind (survives_modifySession _)
  intro _
  exact Exec.never_bind hforensic fun _ => survives_declareDestination _ _ _

theorem survives_startConsuming (env : ConsumeEnv) : Survives (startConsuming env) := by
  apply Exec.never_get_bind
  intro w
  apply Exec.never_bind (survives_modifySession _)
  intro _
  apply Exec.never_bind (survives_post _ _)
  intro _
  exact Exec.never_bind (survives_ask _ _ _ _) fun _ => Exec.never_pure _

theorem survives_openChannel (out : Outbound) : Survives (openChannel out) := by
  have hsend : Survives (sendOpen out) := by
    apply Exec.never_get_bind
    intro w
    split
    · exact survives_onWire (survives_onData out)
    · exact Exec.never_pure _
  exact Exec.never_bind hsend fun _ => Exec.never_modify _

end Session

namespace AmqpCppTransport

open AmqpConnection Session

theorem survives_serve {α : Type} {x : Serving Session α} (hx : Survives x) :
    Survives (serve x) := by
  intro t
  unfold serve
  cases t.connection with
  | none => exact fun h => absurd h (by simp)
  | some c => exact hx ⟨c, t.session⟩

theorem survives_write (f : Session → Session) : Survives (modifySession f) :=
  Exec.never_modify _

theorem survives_requireChannel (method : String) : Survives (requireChannel method) := by
  apply Exec.never_get_bind
  intro t
  split
  · exact Exec.never_throw (by simp)
  · exact Exec.never_pure _

theorem survives_resetConnection (env : TeardownEnv ChannelEvent) :
    Survives (resetConnection env) := by
  apply Exec.never_get_bind
  intro t
  split
  · exact Exec.never_pure _
  · apply Exec.never_bind
    · exact survives_serve (survives_destroy survives_react steps_react env)
    · exact fun _ => Exec.never_modify _

theorem survives_openConnection (env : OpenEnv) : Survives (openConnection env) := by
  apply Exec.never_bind (survives_resetConnection env.replaced)
  intro _
  apply Exec.never_bind (Exec.never_modify _)
  intro _
  apply Exec.never_bind (survives_serve (survives_connect survives_react env.connect))
  exact fun _ => survives_serve (survives_openChannel env.channelOpen)

/-! ## The channel -/

/-- A usable channel dies on a connection that is not known to be closed, and the
write of its last frame fails: a peer that died without notice. -/
def diesUnnoticed (t : AmqpCppTransport) (out : Outbound) : Bool :=
  match t.connection, t.session.channel with
  | some c, some channel =>
      channel.usable && decide (c.library = .usable) && !c.closed && (c.socket.write out).isSome
  | _, _ => false

theorem emit_throws_iff (c : AmqpConnection) (s : Session) (channel : Channel)
    (hchannel : s.channel = some channel) (out : Outbound) :
    (∃ exn, (emit out ⟨c, s⟩).1 = .error exn) ↔
      (channel.usable && decide (c.library = .usable) && !c.closed &&
        (c.socket.write out).isSome) = true := by
  simp only [emit, Exec.get_bind, hchannel]
  by_cases husable : channel.usable = true ∧ c.library = .usable
  · rw [if_pos husable, Exec.bind_apply]
    simp only [onWire, Exec.zoom_apply, onData_apply, husable]
    cases c.socket.write out with
    | none => simp
    | some ec => cases c.closed <;> simp
  · rw [if_neg husable]
    refine ⟨fun hthrows => ?_, fun h => absurd ?_ husable⟩
    · obtain ⟨exn, h⟩ := hthrows
      exact absurd h (by simp)
    simp only [Bool.and_eq_true, decide_eq_true_eq] at h
    exact h.1.1

/-- The destruction of the channel ends the process exactly when the peer has died
without notice. -/
theorem resetChannel_terminates_iff (t : AmqpCppTransport) (out : Outbound) :
    (resetChannel out t).1 = .error .terminate ↔ t.diesUnnoticed out = true := by
  unfold resetChannel diesUnnoticed
  rw [Exec.get_bind]
  cases hconnection : t.connection with
  | none => exact iff_of_false (by simp [modifySession]) Bool.false_ne_true
  | some c =>
      cases hchannel : t.session.channel with
      | none => exact iff_of_false (by simp [modifySession]) Bool.false_ne_true
      | some channel =>
          rw [if_pos ⟨rfl, rfl⟩]
          dsimp only
          rw [← emit_throws_iff c t.session channel hchannel out]
          unfold fromDestructor
          rw [Exec.bind_apply, Exec.tryCatch_apply]
          simp only [serve, hconnection]
          rcases emit out ⟨c, t.session⟩ with ⟨r, w⟩
          cases r with
          | ok sent => exact iff_of_false (by simp [modifySession]) (by simp)
          | error exn => exact ⟨fun _ => ⟨exn, rfl⟩, fun _ => rfl⟩

/-- On a connection that is closed or gone the channel dies quietly. -/
theorem diesUnnoticed_of_closed {t : AmqpCppTransport}
    (h : t.connection.all AmqpConnection.isClosed = true) (out : Outbound) :
    t.diesUnnoticed out = false := by
  unfold diesUnnoticed
  cases hconnection : t.connection with
  | none => rfl
  | some c =>
      rw [hconnection] at h
      have hclosed : c.closed = true := h
      cases t.session.channel <;> simp [hclosed]

/-! ## The methods -/

theorem survives_attempt {t : AmqpCppTransport}
    (h : t.connection.all AmqpConnection.isClosed = true) (env : ReconnectEnv) :
    (attempt env t).1 ≠ .error .terminate := by
  have hrest : Survives (do
      resetConnection env.teardown
      modifySession fun s => { s with outstandingDeferred := ∅ }
      openConnection env.opening
      redeclare env.declare
      reconsume env.consume
      modifySession fun s => { s with
        failedAttempts := 0, stats.reconnects := s.stats.reconnects + 1 }
      pure true) := by
    have hredeclare : Survives (redeclare env.declare) := by
      apply Exec.never_get_bind
      intro t
      dsimp only
      split
      · exact Exec.never_bind (survives_serve (survives_declare _ _ _)) fun _ => Exec.never_pure _
      · exact Exec.never_pure _
    have hreconsume : Survives (reconsume env.consume) := by
      apply Exec.never_get_bind
      intro t
      split
      · exact survives_serve (survives_startConsuming _)
      · exact Exec.never_pure _
    apply Exec.never_bind (survives_resetConnection env.teardown)
    intro _
    apply Exec.never_bind (survives_write _)
    intro _
    apply Exec.never_bind (survives_openConnection env.opening)
    intro _
    apply Exec.never_bind hredeclare
    intro _
    apply Exec.never_bind hreconsume
    intro _
    exact Exec.never_bind (survives_write _) fun _ => Exec.never_pure _
  have hchannel : (resetChannel env.channelClose t).1 ≠ .error .terminate := by
    rw [ne_eq, resetChannel_terminates_iff, diesUnnoticed_of_closed h]
    decide
  unfold attempt
  rw [Exec.bind_apply]
  rcases hrun : resetChannel env.channelClose t with ⟨r, t'⟩
  rw [hrun] at hchannel
  cases r with
  | ok _ => exact hrest t'
  | error e => exact fun heq => hchannel (congrArg Except.error (Except.error.inj heq))

theorem survives_serviceReconnect {t : AmqpCppTransport}
    (h : t.connection.all AmqpConnection.isClosed = true) (env : ReconnectEnv) :
    (serviceReconnect env t).1 ≠ .error .terminate := by
  rw [serviceReconnect_apply]
  split
  · exact fun heq => absurd heq (by simp)
  split
  · exact fun heq => absurd heq (by simp)
  split
  · exact fun heq => absurd heq (by simp)
  have hattempt := survives_attempt (t := t.beginAttempt) h env
  rcases hrun : attempt env t.beginAttempt with ⟨r, t'⟩
  rw [hrun] at hattempt
  cases r with
  | ok b => exact fun heq => absurd heq (by simp)
  | error e =>
      have he : e ≠ .terminate := fun heq => hattempt (congrArg Except.error heq)
      dsimp only
      split
      · exact fun heq => absurd heq (by simp)
      · exact fun heq => he (Except.error.inj heq)

theorem survives_pumpServed (env : PumpEnv) : Survives (pumpServed env) := by
  intro t
  rw [pumpServed_apply]
  cases t.session.handlerFailure with
  | some what => exact fun heq => absurd heq (by simp)
  | none =>
      dsimp only
      split
      · rename_i hclosed
        apply survives_serviceReconnect
        cases hconnection : t.connection with
        | none => rfl
        | some c => rw [hconnection] at hclosed; exact hclosed.1
      · exact fun heq => absurd heq (by simp)

theorem survives_pump (env : PumpEnv) : Survives (pump env) := by
  intro t
  unfold pump
  rw [Exec.get_bind]
  split
  · rename_i hclosed
    exact survives_serviceReconnect hclosed env.reconnect
  · exact Exec.never_bind (survives_serve (survives_pumpUntil survives_react _ _))
      (fun _ => survives_pumpServed env) t

/-- A method that destroys the channel first, and nothing afterwards that could end
the process. -/
theorem terminates_iff_of_resetChannel {α : Type} {rest : Unit → Method α}
    (hrest : ∀ u, Survives (rest u)) (out : Outbound) (t : AmqpCppTransport) :
    ((resetChannel out >>= rest) t).1 = .error .terminate ↔ t.diesUnnoticed out = true := by
  rw [← resetChannel_terminates_iff, Exec.bind_apply]
  rcases resetChannel out t with ⟨r, t'⟩
  cases r with
  | ok u => exact ⟨fun heq => absurd heq (hrest u t'), fun heq => absurd heq (by simp)⟩
  | error e =>
      exact ⟨fun heq => congrArg Except.error (Except.error.inj heq),
        fun heq => congrArg Except.error (Except.error.inj heq)⟩

theorem close_terminates_iff (env : CloseEnv) (t : AmqpCppTransport) :
    (close env t).1 = .error .terminate ↔ t.diesUnnoticed env.channelClose = true := by
  have hclose : Survives (closeConnection env) := by
    apply Exec.never_get_bind
    intro t
    split
    · exact survives_serve (survives_close survives_react _ _)
    · exact Exec.never_pure _
  exact terminates_iff_of_resetChannel
    (fun _ => Exec.never_bind hclose fun _ => survives_write _) env.channelClose
    { t with session := { t.session with outstandingDeferred := ∅ } }

theorem destroy_terminates_iff (env : CloseEnv) (t : AmqpCppTransport) :
    (destroy env t).1 = .error .terminate ↔ t.diesUnnoticed env.channelClose = true := by
  rw [← terminates_iff_of_resetChannel
    (fun _ => survives_resetConnection ⟨env.close, env.turns, env.last⟩) env.channelClose t]
  unfold destroy swallow
  rw [Exec.tryCatch_apply]
  rcases (resetChannel env.channelClose >>= fun _ =>
    resetConnection ⟨env.close, env.turns, env.last⟩) t with ⟨r, t'⟩
  cases r with
  | ok _ => exact ⟨fun heq => absurd heq (by simp), fun heq => absurd heq (by simp)⟩
  | error e =>
      dsimp only
      by_cases he : e = .terminate
      · rw [if_pos he, he]
        exact ⟨fun _ => rfl, fun _ => rfl⟩
      · rw [if_neg he]
        exact ⟨fun heq => absurd heq (by simp), fun heq => absurd (Except.error.inj heq) he⟩

/-! ## The calls -/

/-- A call that destroys the channel does so on a connection that is known to be
closed, or whose peer takes the channel's last frame. -/
def DiesQuietly (t : AmqpCppTransport) : Call → Prop
  | .close env | .destroy env => t.diesUnnoticed env.channelClose = false
  | _ => True

instance (t : AmqpCppTransport) (call : Call) : Decidable (DiesQuietly t call) := by
  unfold DiesQuietly
  split <;> infer_instance

theorem survives_ensureTopic (topic : Topic) (options : TopicOptions) (env : DeclareEnv) :
    Survives (ensureTopic topic options env) := by
  apply Exec.never_bind (survives_requireChannel _)
  intro _
  exact Exec.never_bind (survives_serve (survives_declare _ _ _)) fun _ => survives_write _

theorem survives_send (topic : Topic) (payload : Bytes) (options : SendOptions)
    (out : Outbound) : Survives (send topic payload options out) := by
  apply Exec.never_bind (survives_requireChannel _)
  intro _
  split
  · exact Exec.never_throw (by simp)
  apply Exec.never_bind (survives_serve (survives_emit out))
  intro accepted
  split
  · exact Exec.never_bind (survives_write _) fun _ => Exec.never_pure _
  · exact Exec.never_pure _

theorem survives_subscribe (topic : Topic) (callable : Bool) (env : ConsumeEnv) :
    Survives (subscribe topic callable env) := by
  apply Exec.never_bind (survives_requireChannel _)
  intro _
  apply Exec.never_get_bind
  intro t
  split
  · exact Exec.never_throw (by simp)
  split
  · exact Exec.never_throw (by simp)
  apply Exec.never_bind (survives_write _)
  intro _
  exact Exec.never_bind (survives_serve (survives_startConsuming env)) fun _ => survives_write _

theorem survives_settle (tag : Nat) (disposition : Disposition) (out : Outbound) :
    Survives (settle tag disposition out) := by
  apply Exec.never_bind (survives_requireChannel _)
  intro _
  apply Exec.never_get_bind
  intro t
  split
  · exact Exec.never_throw (by simp)
  split
  · exact Exec.never_throw (by simp)
  exact Exec.never_bind (survives_write _) fun _ => survives_serve (survives_perform _ _ _)

/-- What every call does to the process. -/
theorem call_terminates_iff (t : AmqpCppTransport) (call : Call) :
    (call.method t).1 = .error .terminate ↔ ¬ DiesQuietly t call := by
  have hsurvives : ∀ {c : Call}, Survives c.method → DiesQuietly t c →
      ((c.method t).1 = .error .terminate ↔ ¬ DiesQuietly t c) :=
    fun hs hq => ⟨fun h => absurd h (hs t), fun h => absurd hq h⟩
  cases call with
  | close env =>
      rw [Call.method, close_terminates_iff]
      simp [DiesQuietly]
  | destroy env =>
      rw [Call.method, destroy_terminates_iff]
      simp [DiesQuietly]
  | connect endpoint env =>
      exact hsurvives (Exec.never_bind (survives_write _) fun _ => survives_openConnection env)
        trivial
  | setReconnectPolicy policy => exact hsurvives (survives_write _) trivial
  | ensureTopic topic options env => exact hsurvives (survives_ensureTopic topic options env) trivial
  | topicDepth topic env =>
      exact hsurvives (Exec.never_map _ (Exec.never_bind (survives_requireChannel _)
        fun _ => survives_serve (survives_ask _ _ _ _))) trivial
  | purgeTopic topic env =>
      exact hsurvives (Exec.never_map _ (Exec.never_bind (survives_requireChannel _)
        fun _ => survives_serve (survives_ask _ _ _ _))) trivial
  | send topic payload options out =>
      exact hsurvives (Exec.never_map _ (survives_send topic payload options out)) trivial
  | subscribe topic callable env => exact hsurvives (survives_subscribe topic callable env) trivial
  | settle tag disposition out => exact hsurvives (survives_settle tag disposition out) trivial
  | pump env => exact hsurvives (Exec.never_map _ (survives_pump env)) trivial

end AmqpCppTransport

namespace Process

open AmqpCppTransport

/-- No throw leaves a destructor in any state of a run exactly when every call that
destroys the channel meets a connection known to be closed, or a live peer. -/
theorem neverTerminated_iff_diesQuietly (calls : List Call) :
    machine.Always (fun p => p.terminated = false) calls ↔
      machine.Guarded (fun p call => p.running = true → p.transport.DiesQuietly call) calls := by
  apply Machine.alwaysFrom_iff_guardedFrom (J := fun _ => True) (fun _ _ h => h)
  · intro p call _ hbefore hguard
    unfold machine step
    dsimp only
    split
    · rename_i hrunning
      rw [decide_eq_false_iff_not, call_terminates_iff, not_not]
      exact hguard hrunning
    · exact hbefore
  · intro p call _ hbefore hafter hrunning
    unfold machine step at hafter
    dsimp only at hafter
    rw [if_pos hrunning, decide_eq_false_iff_not, call_terminates_iff, not_not] at hafter
    exact hafter
  · trivial
  · rfl

/-- A worker whose broker died a moment ago: nothing has been read or written since. -/
def unnoticedRun : List Call :=
  [.connect {} { connect := { handshake := [.completed (.data [1]) { callbacks := [.onReady] }] } },
    .close { channelClose := { failure := some ⟨.connectionReset, "Connection reset by peer"⟩ } }]

/-- Its orderly `close` ends the process. -/
theorem unnoticedRun_terminates :
    ¬ machine.Always (fun p => p.terminated = false) unnoticedRun ∧
      (machine.run unnoticedRun).terminated = true := by
  decide

end Process

end Motus.Amqp
