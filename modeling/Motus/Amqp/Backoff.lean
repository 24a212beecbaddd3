import Motus.Transport.Backoff
import Motus.Amqp.Remembered

set_option autoImplicit false

/-!
# The backoff of the AMQP transports

Both `serviceReconnect` are `Backoff.serve` on the fields of the transport that the
backoff is made of, and no other method but `setReconnectPolicy` writes these.

Everything a run says about its attempts is therefore said by the schedule alone, which
`Motus.Transport.Backoff` treats apart from any transport.  What is added here is the
bound that the source does not check: the delay is shifted before it is capped, so a
policy with enough attempts computes one that does not fit.
-/

namespace Motus.Amqp

open Motus.Foundation Motus.Transport

/-- How an attempt ended. -/
def outcomeOf (result : Except Exn Bool) : Outcome :=
  match result with
  | .ok _ => .succeeded
  | .error exn => if isStdException exn then .failed else .escaped

namespace AmqpCppTransport

open AmqpConnection Session

/-- The fields of a session that the backoff is made of. -/
def backoffOf (s : Session) : Backoff := ⟨s.policy, s.failedAttempts, s.nextAttempt⟩

/-- The part of the transport that its reconnection attempts read and write. -/
def backoff (t : AmqpCppTransport) : Backoff := backoffOf t.session

theorem keptByCall_backoff : KeptByCall (Exec.Same backoffOf) where
  answer := fun _ _ => rfl
  routes := fun _ _ => rfl
  channel := fun _ _ _ _ _ => rfl
  received := fun _ _ _ _ _ _ hhandled => by rcases hhandled with _ | ⟨_ | _ | _ | _⟩ <;> rfl
  declared := fun _ _ _ _ => rfl
  consumed := fun _ _ _ _ => rfl
  opened := fun _ _ => rfl
  dropped := fun _ => rfl
  forgotten := fun _ => rfl
  endpoint := fun _ _ => rfl

theorem keptBySettle_backoff : KeptBySettle (Exec.Same backoffOf) where
  resolved := fun _ _ _ => rfl
  performed := fun _ _ _ hperformed => by cases hperformed <;> rfl

/-- What a call of `serviceReconnect` meets, as far as the backoff goes. -/
def service (env : ReconnectEnv) (t : AmqpCppTransport) : Service where
  now := env.now
  outcome := outcomeOf (attempt env t.beginAttempt).1
  later := env.later
  shifted := env.shifted
  added := env.added

/-- The steps of an attempt leave the backoff alone. -/
theorem backoff_restore (env : ReconnectEnv) (t : AmqpCppTransport) :
    (restore env t).2.backoff = t.backoff := by
  have hkept := keptByCall_backoff.toKeptByAttempt
  have halong : Exec.Along (OnSession (Exec.Same backoffOf)) (restore env) := by
    apply Exec.along_bind (KeptByAttempt.resetChannel hkept env.channelClose)
    intro _
    apply Exec.along_bind (KeptByAsk.resetConnection hkept.toKeptByAsk env.teardown)
    intro _
    refine Exec.along_bind (fun _ => rfl) fun _ => ?_
    apply Exec.along_bind (KeptByAttempt.openConnection hkept env.opening)
    intro _
    apply Exec.along_bind (KeptByConsume.redeclare hkept.toKeptByConsume env.declare)
    exact fun _ => KeptByConsume.reconsume hkept.toKeptByConsume env.consume
  exact halong t

/-- `serviceReconnect` does to the backoff what `Backoff.serve` says. -/
theorem backoff_serviceReconnect (env : ReconnectEnv) (t : AmqpCppTransport) :
    (serviceReconnect env t).2.backoff = t.backoff.serve (service env t) := by
  have hserve : t.backoff.serve (service env t) =
      if t.session.policy.enabled = false then t.backoff
      else if t.session.policy.maxAttempts ≤ t.session.failedAttempts then t.backoff
      else if env.now < t.session.nextAttempt then t.backoff
      else t.backoff.attempted (service env t) := Backoff.serve_apply _ _
  rw [serviceReconnect_apply, hserve]
  by_cases hdisabled : t.session.policy.enabled = false
  · rw [if_pos hdisabled, if_pos hdisabled]
  rw [if_neg hdisabled, if_neg hdisabled]
  by_cases hspent : t.session.policy.maxAttempts ≤ t.session.failedAttempts
  · rw [if_pos hspent, if_pos hspent]
  rw [if_neg hspent, if_neg hspent]
  by_cases hearly : env.now < t.session.nextAttempt
  · rw [if_pos hearly, if_pos hearly]
  rw [if_neg hearly, if_neg hearly]
  have hrestore := backoff_restore env t.beginAttempt
  unfold service
  rw [attempt_apply]
  rcases hrun : restore env t.beginAttempt with ⟨r, t'⟩
  rw [hrun] at hrestore
  obtain ⟨hpolicy, hfailed, hnext⟩ := Backoff.mk.inj hrestore
  cases r with
  | ok _ =>
      dsimp only [outcomeOf, Backoff.attempted, backoff, backoffOf]
      rw [hpolicy, hnext]
      rfl
  | error exn =>
      dsimp only [outcomeOf]
      split
      · dsimp only [Backoff.attempted, backoff, backoffOf]
        rw [hpolicy, hfailed]
        rfl
      · exact hrestore

/-- The call of `serviceReconnect` that a `pump` gets to, and the state it finds. -/
def reconnects (env : PumpEnv) (t : AmqpCppTransport) : Option AmqpCppTransport :=
  if t.connection.all AmqpConnection.isClosed then some t
  else
    match serve (pumpUntil react (fun _ => false) env.turns) t with
    | (.error _, _) => none
    | (.ok _, t') =>
        if t'.session.handlerFailure.isNone ∧
            t'.connection.any AmqpConnection.isClosed ∧ t'.session.policy.enabled = true then some t'
        else none

/-- A `pump` goes where serving the socket and forgetting a failure go, and from there
through that call if it gets to it. -/
theorem pump_cases {R : AmqpCppTransport → AmqpCppTransport → Prop}
    [IsPreorder AmqpCppTransport R] {env : PumpEnv}
    (hserve : Exec.Along R (serve (pumpUntil react (fun _ => false) env.turns)))
    (hrethrow : ∀ (t : AmqpCppTransport) what, R t { t with session := { t.session with
      handlerFailure := none, rethrown := what :: t.session.rethrown } })
    (t : AmqpCppTransport) :
    (reconnects env t = none ∧ R t (pump env t).2) ∨
      ∃ t', reconnects env t = some t' ∧ R t t' ∧
        pump env t = serviceReconnect env.reconnect t' := by
  rw [pump_apply, reconnects]
  by_cases hdown : t.connection.all isClosed = true
  · rw [if_pos hdown, if_pos hdown]
    exact .inr ⟨t, rfl, Std.Refl.refl t, rfl⟩
  rw [if_neg hdown, if_neg hdown]
  have hserved := hserve t
  rcases hrun : serve (pumpUntil react (fun _ => false) env.turns) t with ⟨r, t'⟩
  rw [hrun] at hserved
  cases r with
  | error exn => exact .inl ⟨rfl, hserved⟩
  | ok _ =>
      dsimp only
      rw [pumpServed_apply]
      cases hfailure : t'.session.handlerFailure with
      | some what =>
          exact .inl ⟨if_neg (by simp), IsTrans.trans _ _ _ hserved (hrethrow t' what)⟩
      | none =>
          dsimp only
          by_cases hclosed : t'.connection.any isClosed = true ∧ t'.session.policy.enabled = true
          · rw [if_pos hclosed, if_pos ⟨rfl, hclosed⟩]
            exact .inr ⟨t', rfl, hserved, rfl⟩
          · rw [if_neg hclosed, if_neg fun h => hclosed h.2]
            exact .inl ⟨rfl, hserved⟩

/-- A `pump` does nothing to the backoff but through that call. -/
theorem backoff_pump (env : PumpEnv) (t : AmqpCppTransport) :
    (reconnects env t = none ∧ (pump env t).2.backoff = t.backoff) ∨
      ∃ t', reconnects env t = some t' ∧ t'.backoff = t.backoff ∧
        (pump env t).2.backoff = t'.backoff.serve (service env.reconnect t') := by
  have hserve : Exec.Along (Exec.Same backoff)
      (serve (pumpUntil react (fun _ => false) env.turns)) :=
    onSession_serve (keptByCall_backoff.pumpUntil (fun _ => false) env.turns)
  rcases pump_cases hserve (fun _ _ => rfl) t with ⟨hnone, hsame⟩ | ⟨t', hsome, hsame, hpump⟩
  · exact .inl ⟨hnone, hsame⟩
  · refine .inr ⟨t', hsome, hsame, ?_⟩
    rw [hpump]
    exact backoff_serviceReconnect env.reconnect t'

/-- What a call does to the backoff. -/
def backs (t : AmqpCppTransport) : Call → Backs
  | .setReconnectPolicy policy => .sets policy
  | .pump env =>
      match reconnects env t with
      | none => .nothing
      | some t' => .serves (service env.reconnect t')
  | _ => .nothing

theorem backoff_call (call : Call) (t : AmqpCppTransport) :
    (call.method t).2.backoff = t.backoff.step (t.backs call) := by
  have hquiet : (∀ policy, call ≠ .setReconnectPolicy policy) → (∀ env, call ≠ .pump env) →
      (call.method t).2.backoff = t.backoff := by
    intro hpolicy hpump
    exact KeptByCall.call keptByCall_backoff call
      (fun topic payload options out _ => onSession_send (fun _ _ => rfl) topic payload options out)
      (fun _ _ _ _ _ => rfl)
      (fun _ _ _ _ _ => ⟨rfl, rfl⟩) (fun _ _ _ => rfl)
      (fun tag disposition out _ => KeptBySettle.settle keptBySettle_backoff tag disposition out)
      (fun policy h => absurd h (hpolicy policy)) (fun env h => absurd h (hpump env)) t
  cases call with
  | setReconnectPolicy policy => rfl
  | pump env =>
      rw [Call.method, Exec.map_apply]
      rcases backoff_pump env t with ⟨hnone, hsame⟩ | ⟨t', hsome, hsame, hserve⟩
      · have hbacks : t.backs (.pump env) = .nothing := by simp only [backs, hnone]
        rw [hbacks]
        exact hsame
      · have hbacks : t.backs (.pump env) = .serves (service env.reconnect t') := by
          simp only [backs, hsome]
        rw [hbacks, ← hsame]
        exact hserve
  | _ => exact hquiet (by simp) (by simp)

end AmqpCppTransport

namespace Process

/-- What a call does to the backoff of the transport of the process. -/
def backs (p : Process) (call : AmqpCppTransport.Call) : Backs :=
  if p.running then p.transport.backs call else .nothing

theorem backoff_step (p : Process) (call : AmqpCppTransport.Call) :
    (machine.step p call).transport.backoff = p.transport.backoff.step (p.backs call) := by
  unfold machine Process.step backs
  dsimp only
  split
  · exact AmqpCppTransport.backoff_call call p.transport
  · rfl

end Process

namespace SimpleAmqpTransport

/-- The fields that the backoff is made of. -/
def backoff (t : SimpleAmqpTransport) : Backoff := ⟨t.policy, t.failedAttempts, t.nextAttempt⟩

/-- The state in which an attempt begins. -/
def beginAttempt (t : SimpleAmqpTransport) : SimpleAmqpTransport :=
  { t with failedAttempts := t.failedAttempts + 1 }

/-- What a call of `serviceReconnect` meets, as far as the backoff goes. -/
def service (env : ReconnectEnv) (t : SimpleAmqpTransport) : Service where
  now := env.now
  outcome := outcomeOf (attempt env t.beginAttempt).1
  later := env.later
  shifted := env.shifted
  added := env.added

/-- The method leaves the backoff alone. -/
abbrev Leaves {α : Type} (x : Method α) : Prop := Exec.Along (Exec.Same backoff) x

theorem leaves_library (thrown : Thrown) : Leaves (library thrown) := by
  cases thrown with
  | none => exact Exec.along_pure _
  | some exn => exact Exec.along_throw _

theorem leaves_requireChannel (method : String) : Leaves (requireChannel method) := by
  apply Exec.along_get_bind
  intro t
  split
  · exact Exec.along_throw _
  · exact Exec.along_pure _

theorem leaves_openChannel (env : OpenEnv) : Leaves (openChannel env) := by
  have hprobe : ∀ host port, Leaves (probeReachable host port env.probe) := by
    intro host port
    cases env.probe with
    | reachable => exact Exec.along_pure _
    | unresolved ec => exact Exec.along_throw _
    | timedOut milliseconds => exact Exec.along_throw _
    | refused ec value => exact Exec.along_throw _
  apply Exec.along_get_bind
  intro t
  apply Exec.along_bind (hprobe _ _)
  intro _
  exact Exec.along_bind (leaves_library env.create) fun _ _ => rfl

theorem leaves_ensureTopic (topic : Topic) (options : TopicOptions) (env : DeclareEnv) :
    Leaves (ensureTopic topic options env) := by
  have hforensic : Leaves (declareForensic options env) := by
    unfold declareForensic
    split
    · apply Exec.along_bind (leaves_library _)
      intro _
      exact Exec.along_bind (leaves_library _) fun _ => leaves_library _
    · exact Exec.along_pure _
  apply Exec.along_bind (leaves_requireChannel _)
  intro _
  refine Exec.along_bind (fun _ => rfl) fun _ => ?_
  apply Exec.along_bind hforensic
  intro _
  exact Exec.along_bind (leaves_library _) fun _ _ => rfl

theorem leaves_startConsuming (consume : Except Exn String) :
    Leaves (startConsuming consume) := by
  refine Exec.along_bind (fun _ => rfl) fun _ => ?_
  cases consume with
  | ok tag => exact fun _ => rfl
  | error exn => exact Exec.along_throw _

theorem leaves_topicDepth (env : Except Exn Nat) : Leaves (topicDepth env) := by
  apply Exec.along_bind (leaves_requireChannel _)
  intro _
  cases env with
  | ok messages => exact Exec.along_pure _
  | error exn => exact Exec.along_throw _

/-- The steps of an attempt leave the backoff alone. -/
theorem leaves_restore (env : ReconnectEnv) : Leaves (restore env) := by
  refine Exec.along_bind (fun _ => rfl) fun _ => ?_
  apply Exec.along_bind (leaves_openChannel env.opening)
  intro _
  have hredeclare : Leaves (redeclare env.declare) := by
    apply Exec.along_get_bind
    intro t
    split
    · exact leaves_ensureTopic _ _ _
    · exact Exec.along_pure _
  apply Exec.along_bind hredeclare
  intro _
  apply Exec.along_get_bind
  intro t
  split
  · exact leaves_startConsuming _
  · exact Exec.along_pure _

/-- `serviceReconnect` does to the backoff what `Backoff.serve` says. -/
theorem backoff_serviceReconnect (env : ReconnectEnv) (t : SimpleAmqpTransport) :
    (serviceReconnect env t).2.backoff = t.backoff.serve (service env t) := by
  have hserve : t.backoff.serve (service env t) =
      if t.policy.enabled = false then t.backoff
      else if t.policy.maxAttempts ≤ t.failedAttempts then t.backoff
      else if env.now < t.nextAttempt then t.backoff
      else t.backoff.attempted (service env t) := Backoff.serve_apply _ _
  rw [serviceReconnect_apply, hserve]
  by_cases hdisabled : t.policy.enabled = false
  · rw [if_pos hdisabled, if_pos hdisabled]
  rw [if_neg hdisabled, if_neg hdisabled]
  by_cases hspent : t.policy.maxAttempts ≤ t.failedAttempts
  · rw [if_pos hspent, if_pos hspent]
  rw [if_neg hspent, if_neg hspent]
  by_cases hearly : env.now < t.nextAttempt
  · rw [if_pos hearly, if_pos hearly]
  rw [if_neg hearly, if_neg hearly]
  have hrestore := leaves_restore env t.beginAttempt
  change backoff _ = backoff _ at hrestore
  unfold service
  have hbegin : { t with failedAttempts := t.failedAttempts + 1 } = t.beginAttempt := rfl
  rw [hbegin, attempt_apply]
  rcases hrun : restore env t.beginAttempt with ⟨r, t'⟩
  rw [hrun] at hrestore
  obtain ⟨hpolicy, hfailed, hnext⟩ := Backoff.mk.inj hrestore
  cases r with
  | ok _ =>
      dsimp only [outcomeOf, Backoff.attempted, backoff]
      rw [hpolicy, hnext]
      rfl
  | error exn =>
      dsimp only [outcomeOf]
      split
      · dsimp only [Backoff.attempted, backoff]
        rw [hpolicy, hfailed]
        rfl
      · exact hrestore

/-- The call of `serviceReconnect` that a `pump` gets to, and the state it finds. -/
def reconnects (env : PumpEnv) (t : SimpleAmqpTransport) : Option SimpleAmqpTransport :=
  if t.isReady = false then some t
  else if t.memory.subscribed = false ∨ t.handler = false then none
  else
    match env.receive with
    | .lost => some { t with connected := false }
    | _ => none

/-- A `pump` does nothing to the backoff but through that call. -/
theorem backoff_pump (env : PumpEnv) (t : SimpleAmqpTransport) :
    (reconnects env t = none ∧ (pump env t).2.backoff = t.backoff) ∨
      ∃ t', reconnects env t = some t' ∧ t'.backoff = t.backoff ∧
        (pump env t).2.backoff = t'.backoff.serve (service env.reconnect t') := by
  unfold pump reconnects
  rw [Exec.get_bind]
  by_cases hdown : t.isReady = false
  · rw [if_pos hdown, if_pos hdown]
    exact .inr ⟨t, rfl, rfl, backoff_serviceReconnect env.reconnect t⟩
  rw [if_neg hdown, if_neg hdown]
  by_cases hidle : t.memory.subscribed = false ∨ t.handler = false
  · rw [if_pos hidle, if_pos hidle]
    exact .inl ⟨rfl, rfl⟩
  rw [if_neg hidle, if_neg hidle]
  cases env.receive with
  | nothing => exact .inl ⟨rfl, rfl⟩
  | lost => exact .inr ⟨_, rfl, rfl, backoff_serviceReconnect env.reconnect _⟩
  | delivered body outcome resolve =>
      refine .inl ⟨rfl, ?_⟩
      have hperform : ∀ disposition, Leaves (perform resolve disposition) := by
        intro disposition
        cases disposition with
        | deferred => exact Exec.along_pure _
        | ack => exact Exec.along_bind (leaves_library _) fun _ _ => rfl
        | requeue => exact Exec.along_bind (leaves_library _) fun _ _ => rfl
        | reject => exact Exec.along_bind (leaves_library _) fun _ _ => rfl
      dsimp only
      rw [Exec.modify_bind]
      cases outcome with
      | threw what => rfl
      | returned disposition =>
          have hrest : Leaves (perform resolve disposition >>= fun _ => pure true) :=
            Exec.along_bind (hperform disposition) fun _ => Exec.along_pure _
          exact hrest _

/-- What a call does to the backoff. -/
def backs (t : SimpleAmqpTransport) : Call → Backs
  | .setReconnectPolicy policy => .sets policy
  | .pump env =>
      match reconnects env t with
      | none => .nothing
      | some t' => .serves (service env.reconnect t')
  | _ => .nothing

theorem backoff_step (t : SimpleAmqpTransport) (call : Call) :
    (machine.step t call).backoff = t.backoff.step (t.backs call) := by
  change (call.method t).2.backoff = _
  cases call with
  | connect endpoint env =>
      exact (Exec.along_bind (fun _ => rfl) fun _ => leaves_openChannel env :
        Leaves (connect endpoint env)) t
  | setReconnectPolicy policy => rfl
  | ensureTopic topic options env =>
      exact (Exec.along_bind (leaves_ensureTopic topic options env) fun _ _ => rfl :
        Leaves (Call.method (.ensureTopic topic options env))) t
  | topicDepth env =>
      rw [Call.method, Exec.map_apply]
      exact leaves_topicDepth env t
  | purgeTopic depth purge =>
      rw [Call.method, Exec.map_apply]
      have hleaves : Leaves (purgeTopic depth purge) := by
        apply Exec.along_bind (leaves_requireChannel _)
        intro _
        apply Exec.along_bind (leaves_topicDepth depth)
        intro _
        exact Exec.along_bind (leaves_library purge) fun _ => Exec.along_pure _
      exact hleaves t
  | send payload options publish =>
      rw [Call.method, Exec.map_apply]
      have hleaves : Leaves (send payload options publish) := by
        apply Exec.along_bind (leaves_requireChannel _)
        intro _
        split
        · exact Exec.along_throw _
        apply Exec.along_bind (leaves_library publish)
        intro _
        exact Exec.along_bind (fun _ => rfl) fun _ => Exec.along_pure _
      exact hleaves t
  | subscribe topic callable consume =>
      have hleaves : Leaves (subscribe topic callable consume) := by
        apply Exec.along_bind (leaves_requireChannel _)
        intro _
        apply Exec.along_get_bind
        intro t
        split
        · exact Exec.along_throw _
        split
        · exact Exec.along_throw _
        refine Exec.along_bind (fun _ => rfl) fun _ => ?_
        exact Exec.along_bind (leaves_startConsuming consume) fun _ _ => rfl
      exact hleaves t
  | pump env =>
      rw [Call.method, Exec.map_apply]
      rcases backoff_pump env t with ⟨hnone, hsame⟩ | ⟨t', hsome, hsame, hserve⟩
      · have hbacks : t.backs (.pump env) = .nothing := by simp only [backs, hnone]
        rw [hbacks]
        exact hsame
      · have hbacks : t.backs (.pump env) = .serves (service env.reconnect t') := by
          simp only [backs, hsome]
        rw [hbacks, ← hsame]
        exact hserve
  | close => rfl

end SimpleAmqpTransport

/-! ## Runs -/

/-- The attempts a transport has made since its policy was set. -/
def Process.attempts (calls : List AmqpCppTransport.Call) : List Attempt :=
  attemptsFrom machine (·.transport.backoff) backs [] machine.init calls

/-- The attempts of a run since the policy was set. -/
def SimpleAmqpTransport.attempts (calls : List Call) : List Attempt :=
  attemptsFrom machine backoff backs [] machine.init calls

/-- In every run of either transport in which the delay of each failed attempt, and the
time it leads to, can be represented, the attempts keep to the policy. -/
theorem attempts_lawful (calls : List AmqpCppTransport.Call)
    (callsSimple : List SimpleAmqpTransport.Call) :
    (Process.machine.Guarded (fun p call => p.transport.backoff.Allows (p.backs call)) calls →
      Lawful (Process.machine.run calls).transport.session.policy (Process.attempts calls)) ∧
    (SimpleAmqpTransport.machine.Guarded (fun t call => t.backoff.Allows (t.backs call))
        callsSimple →
      Lawful (SimpleAmqpTransport.machine.run callsSimple).policy
        (SimpleAmqpTransport.attempts callsSimple)) := by
  constructor
  · intro hguard
    have htracks : Tracks (Process.machine.run calls).transport.backoff (Process.attempts calls) :=
      @Tracks.runFrom _ _ Process.machine (·.transport.backoff) Process.backs
        Process.backoff_step _ _ _ (tracks_set {}) hguard
    exact htracks.lawful
  · intro hguard
    have htracks : Tracks (SimpleAmqpTransport.machine.run callsSimple).backoff
        (SimpleAmqpTransport.attempts callsSimple) :=
      @Tracks.runFrom _ _ SimpleAmqpTransport.machine SimpleAmqpTransport.backoff
        SimpleAmqpTransport.backs SimpleAmqpTransport.backoff_step _ _ _ (tracks_set {}) hguard
    exact htracks.lawful

/-- An endpoint that cannot be reached, and a policy that allows so many attempts. -/
def hotRun (attempts : Nat) : List SimpleAmqpTransport.Call :=
  .setReconnectPolicy { enabled := true, maxAttempts := attempts } ::
    (List.range attempts).map fun i =>
      .pump { reconnect := {
        now := i * 10000000000, later := i * 10000000000, opening.probe := .timedOut 5000 } }

theorem attempts_lawful_hotRun :
    Lawful { enabled := true, maxAttempts := 6 } (SimpleAmqpTransport.attempts (hotRun 6)) ∧
      (SimpleAmqpTransport.attempts (hotRun 6)).map (·.delay) =
        [250, 500, 1000, 2000, 4000, 5000] :=
  ⟨(attempts_lawful [] (hotRun 6)).2 (by decide +kernel), by decide +kernel⟩

/-- The shift that follows the 57th failure comes out negative. -/
theorem hotRun_not_lawful :
    ¬ Lawful { enabled := true, maxAttempts := 57 } (SimpleAmqpTransport.attempts (hotRun 57)) := by
  intro h
  have hlast : (SimpleAmqpTransport.attempts (hotRun 57)).getLast? =
      some ⟨57, 560000000000, .failed, 560000000000, -432345564227567616⟩ := by decide +kernel
  exact absurd (h.range _ (List.mem_of_getLast? hlast) rfl).1 (by decide)

end Motus.Amqp
