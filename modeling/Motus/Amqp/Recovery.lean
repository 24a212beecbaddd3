import Motus.Amqp.Backoff

set_option autoImplicit false

/-!
# Outlasting an outage (`src/transport/SimpleAmqpTransport.cpp`)

An attempt to reconnect has several steps, and may fail at any of them.  Whatever it
leaves behind, the transport counts as not connected afterwards, so the next `pump` comes
back to the reconnection, until an attempt succeeds or the policy is used up.

`Survives` is what no failed attempt destroys, and it is all that a later one needs.  The
outage is a stretch of calls in which every attempt fails when it is due.
-/

namespace Motus.Amqp

open Motus.Foundation Motus.Transport

namespace SimpleAmqpTransport

/-! ## What an attempt can write -/

/-- Only the fields that belong to the connection may differ. -/
def Reworked (t t' : SimpleAmqpTransport) : Prop :=
  ∃ channel connected tag memory, t' = { t with
    channel := channel, connected := connected, consumerTag := tag, memory := memory }

instance : IsPreorder SimpleAmqpTransport Reworked where
  refl t := ⟨_, _, _, _, rfl⟩
  trans t u v := by
    rintro ⟨_, _, _, _, rfl⟩ ⟨_, _, _, _, rfl⟩
    exact ⟨_, _, _, _, rfl⟩

theorem reworks_library (thrown : Thrown) : Exec.Along Reworked (library thrown) := by
  cases thrown with
  | none => exact Exec.along_pure _
  | some exn => exact Exec.along_throw _

theorem reworks_openChannel (env : OpenEnv) : Exec.Along Reworked (openChannel env) := by
  intro t
  rcases openChannel_cases env t with ⟨exn, hrun⟩ | hrun
  · rw [hrun]
    exact Std.Refl.refl t
  · rw [hrun]
    exact ⟨_, _, _, _, rfl⟩

theorem reworks_ensureTopic (topic : Topic) (options : TopicOptions) (env : DeclareEnv) :
    Exec.Along Reworked (ensureTopic topic options env) := by
  have hforensic : Exec.Along Reworked (declareForensic options env) := by
    intro t
    rw [state_declareForensic]
    exact Std.Refl.refl t
  have hrequire : Exec.Along Reworked (requireChannel "ensureTopic") := by
    apply Exec.along_get_bind
    intro t
    split
    · exact Exec.along_throw _
    · exact Exec.along_pure _
  apply Exec.along_bind hrequire
  intro _
  refine Exec.along_bind (fun _ => ⟨_, _, _, _, rfl⟩) fun _ => ?_
  apply Exec.along_bind hforensic
  intro _
  exact Exec.along_bind (reworks_library _) fun _ _ => ⟨_, _, _, _, rfl⟩

theorem reworks_startConsuming (consume : Except Exn String) :
    Exec.Along Reworked (startConsuming consume) := by
  refine Exec.along_bind (fun _ => ⟨_, _, _, _, rfl⟩) fun _ => ?_
  cases consume with
  | ok tag => exact fun _ => ⟨_, _, _, _, rfl⟩
  | error exn => exact Exec.along_throw _

theorem reworks_restore (env : ReconnectEnv) : Exec.Along Reworked (restore env) := by
  refine Exec.along_bind (fun _ => ⟨_, _, _, _, rfl⟩) fun _ => ?_
  apply Exec.along_bind (reworks_openChannel env.opening)
  intro _
  refine Exec.along_bind (Exec.along_get_bind fun t => ?_) fun _ => ?_
  · split
    · exact reworks_ensureTopic _ _ _
    · exact Exec.along_pure _
  · refine Exec.along_get_bind fun t => ?_
    split
    · exact reworks_startConsuming _
    · exact Exec.along_pure _

/-! ## An attempt that goes through -/

/-- Every call of the library that an attempt makes succeeds, and the broker gives the
new consumer this tag. -/
structure ReconnectEnv.Answers (env : ReconnectEnv) (tag : String) : Prop where
  probe : env.opening.probe = .reachable
  create : env.opening.create = none
  exchange : env.declare.exchange = none
  forensicQueue : env.declare.forensicQueue = none
  bind : env.declare.bind = none
  queue : env.declare.queue = none
  consume : env.consume = .ok tag

theorem openChannel_answers {env : ReconnectEnv} {tag : String} (h : env.Answers tag)
    (t : SimpleAmqpTransport) :
    openChannel env.opening t = (.ok (), { t with channel := some {}, connected := true }) := by
  simp only [openChannel, Exec.get_bind, h.probe, h.create]
  rfl

theorem redeclare_answers {env : ReconnectEnv} {tag : String} (h : env.Answers tag)
    {t : SimpleAmqpTransport} (hchannel : t.channel = some {}) :
    redeclare env.declare t =
      (.ok (), { t with channel := some { declared := t.memory.redeclares } }) := by
  unfold redeclare
  rw [Exec.get_bind]
  split
  · next hdeclared =>
      have hforensic : ∀ u : SimpleAmqpTransport,
          declareForensic t.memory.topicOptions env.declare u = (.ok (), u) := by
        intro u
        unfold declareForensic
        rw [h.exchange, h.forensicQueue, h.bind]
        split <;> rfl
      have hsame : t.memory.store t.memory.topic t.memory.topicOptions = t.memory := by
        unfold Memory.store
        rw [← hdeclared]
      unfold ensureTopic
      rw [requireChannel_bind, if_neg (by simp [hchannel]), Exec.modify_bind,
        Exec.bind_ok (hforensic _), h.queue, Memory.redeclares, if_pos hdeclared]
      change ((.ok (), { t with
        channel := t.channel.map fun ch => { ch with
          declared := ch.declared ++ [(t.memory.topic, t.memory.topicOptions)] }
        memory := t.memory.store t.memory.topic t.memory.topicOptions }) :
          Except Exn Unit × SimpleAmqpTransport) = _
      rw [hsame, hchannel]
      rfl
  · next hundeclared =>
      rw [Memory.redeclares, if_neg hundeclared, ← hchannel]
      rfl

theorem reconsume_answers {env : ReconnectEnv} {tag : String} (h : env.Answers tag)
    (t : SimpleAmqpTransport) :
    reconsume env.consume t = (.ok (), { t with
      channel := t.channel.map fun ch => { ch with consumed := ch.consumed ++ t.memory.reconsumes }
      consumerTag := if t.memory.subscribed then tag else t.consumerTag }) := by
  unfold reconsume
  rw [Exec.get_bind]
  split
  · next hsubscribed =>
      rw [h.consume, Memory.reconsumes, if_pos hsubscribed]
      rfl
  · next hnot =>
      have hsame : t.channel.map (fun ch => { ch with consumed := ch.consumed ++ [] }) =
          t.channel := by
        cases t.channel <;> simp
      rw [Memory.reconsumes, if_neg hnot, hsame]
      rfl

/-- What a transport is like after an attempt that went through. -/
structure Recovered (t : SimpleAmqpTransport) (tag : String) (t' : SimpleAmqpTransport) :
    Prop where
  ready : t'.isReady = true
  channel : t'.channel = some ⟨t.memory.redeclares, t.memory.reconsumes⟩
  consumer : t.memory.subscribed = true → t'.consumerTag = tag
  memory : t'.memory = t.memory
  handler : t'.handler = t.handler
  policy : t'.policy = t.policy
  failedAttempts : t'.failedAttempts = 0
  reconnects : t'.stats.reconnects = t.stats.reconnects + 1

theorem attempt_answers {env : ReconnectEnv} {tag : String} (h : env.Answers tag)
    (t : SimpleAmqpTransport) :
    ∃ t', attempt env t = (.ok true, t') ∧ Recovered t tag t' := by
  have hopen := openChannel_answers h { t with channel := none }
  have hdeclare := redeclare_answers h (t := { t with channel := some {}, connected := true }) rfl
  have hconsume := reconsume_answers h
    { t with channel := some { declared := t.memory.redeclares }, connected := true }
  have hrestore : restore env t = (.ok (), { t with
      channel := some ⟨t.memory.redeclares, t.memory.reconsumes⟩
      connected := true
      consumerTag := if t.memory.subscribed then tag else t.consumerTag }) := by
    unfold restore
    rw [Exec.modify_bind, Exec.bind_ok hopen, Exec.bind_ok hdeclare, hconsume]
    rfl
  rw [attempt_apply, hrestore]
  exact ⟨_, rfl, rfl, rfl, fun hsubscribed => if_pos hsubscribed, rfl, rfl, rfl, rfl, rfl⟩

/-! ## One `pump` of an outage -/

/-- The connection is down, or this `pump` finds it lost. -/
def FindsLost (env : PumpEnv) (t : SimpleAmqpTransport) : Prop := (reconnects env t).isSome = true

/-- An attempt that a `pump` makes fails, with an exception that is caught. -/
def FailsIfDue (t : SimpleAmqpTransport) (env : PumpEnv) : Prop :=
  ∀ t' ∈ reconnects env t, t'.backoff.due env.reconnect.now = true →
    (service env.reconnect t').outcome = .failed

instance (t : SimpleAmqpTransport) (env : PumpEnv) : Decidable (FailsIfDue t env) :=
  decidable_of_iff ((reconnects env t).all fun t' =>
      !t'.backoff.due env.reconnect.now || (service env.reconnect t').outcome == .failed) <| by
    unfold FailsIfDue
    cases reconnects env t with
    | none => simp
    | some t' =>
        rw [Option.all_some, Bool.or_eq_true, Bool.not_eq_true', beq_iff_eq]
        exact ⟨fun h u hu hdue => by obtain rfl := Option.some.inj hu; simpa [hdue] using h,
          fun h => by simpa [imp_iff_not_or] using h t' rfl⟩

/-- What an outage leaves as it was. -/
structure Survives (t t' : SimpleAmqpTransport) : Prop where
  memory : t'.memory = t.memory
  handler : t'.handler = t.handler
  policy : t'.policy = t.policy
  reconnects : t'.stats.reconnects = t.stats.reconnects
  failedAttempts : t.failedAttempts ≤ t'.failedAttempts

instance : IsPreorder SimpleAmqpTransport Survives where
  refl _ := ⟨rfl, rfl, rfl, rfl, Nat.le_refl _⟩
  trans _ _ _ h h' :=
    ⟨h'.memory.trans h.memory, h'.handler.trans h.handler, h'.policy.trans h.policy,
      h'.reconnects.trans h.reconnects, h.failedAttempts.trans h'.failedAttempts⟩

/-- A `pump` that finds the connection lost is a call of `serviceReconnect`. -/
theorem pump_findsLost {env : PumpEnv} {t : SimpleAmqpTransport} (h : FindsLost env t) :
    ∃ t', reconnects env t = some t' ∧ t'.isReady = false ∧ Survives t t' ∧
      t'.backoff = t.backoff ∧ pump env t = serviceReconnect env.reconnect t' := by
  unfold FindsLost reconnects at h
  unfold reconnects pump
  rw [Exec.get_bind]
  by_cases hdown : t.isReady = false
  · rw [if_pos hdown, if_pos hdown]
    exact ⟨t, rfl, hdown, Std.Refl.refl t, rfl, rfl⟩
  rw [if_neg hdown] at h ⊢
  rw [if_neg hdown]
  by_cases hidle : t.memory.subscribed = false ∨ t.handler = false
  · rw [if_pos hidle] at h
    exact absurd h (by simp)
  rw [if_neg hidle] at h ⊢
  rw [if_neg hidle]
  cases hreceive : env.receive with
  | nothing =>
      rw [hreceive] at h
      exact absurd h (by simp)
  | delivered body outcome resolve =>
      rw [hreceive] at h
      exact absurd h (by simp)
  | lost =>
      exact ⟨_, rfl, rfl, ⟨rfl, rfl, rfl, rfl, Nat.le_refl _⟩, rfl, rfl⟩

/-- A transport that is down finds itself down. -/
theorem findsLost_of_down {t : SimpleAmqpTransport} (h : t.isReady = false) (env : PumpEnv) :
    FindsLost env t := by
  rw [FindsLost, reconnects, if_pos h, Option.isSome_some]

/-- An attempt that fails throws what is caught, and leaves what it has to restore. -/
theorem attempt_fails {env : ReconnectEnv} {t : SimpleAmqpTransport}
    (h : (service env t).outcome = .failed) :
    ∃ exn t', attempt env t.beginAttempt = (.error exn, t') ∧ isStdException exn = true ∧
      Survives t t' := by
  have hmemory := (restore_cases env t.beginAttempt).1
  have hreworked := reworks_restore env t.beginAttempt
  unfold service at h
  rw [attempt_apply] at h ⊢
  rcases hrun : restore env t.beginAttempt with ⟨r, t'⟩
  rw [hrun] at hmemory hreworked h
  cases r with
  | ok _ => exact absurd h (by simp [outcomeOf])
  | error exn =>
      have hstd : isStdException exn = true := by
        dsimp only [outcomeOf] at h
        split at h
        · assumption
        · exact absurd h (by simp)
      obtain ⟨channel, connected, tag, memory, rfl⟩ := hreworked
      exact ⟨exn, _, rfl, hstd, congrArg Prod.fst hmemory, rfl, rfl, rfl, Nat.le_succ _⟩

/-- During an outage a `pump` leaves the transport down and with all that it knows, and
as long as the policy allows an attempt it returns `true`. -/
theorem pump_outage {env : PumpEnv} {t : SimpleAmqpTransport} (hlost : FindsLost env t)
    (henabled : t.policy.enabled = true) (hfails : FailsIfDue t env) :
    (pump env t).2.isReady = false ∧ Survives t (pump env t).2 ∧
      (t.failedAttempts < t.policy.maxAttempts → (pump env t).1 = .ok true) := by
  obtain ⟨t₁, hreach, hdown, hsurvives, hbackoff, hpump⟩ := pump_findsLost hlost
  have hfailed : t₁.failedAttempts = t.failedAttempts := congrArg Backoff.failedAttempts hbackoff
  have henabled₁ : t₁.policy.enabled = true := hsurvives.policy ▸ henabled
  rw [hpump, serviceReconnect_apply, if_neg (by simp [henabled₁])]
  by_cases hspent : t₁.policy.maxAttempts ≤ t₁.failedAttempts
  · rw [if_pos hspent]
    refine ⟨hdown, hsurvives, fun hleft => ?_⟩
    rw [hsurvives.policy, hfailed] at hspent
    omega
  rw [if_neg hspent]
  by_cases hearly : env.reconnect.now < t₁.nextAttempt
  · rw [if_pos hearly]
    exact ⟨hdown, hsurvives, fun _ => rfl⟩
  rw [if_neg hearly]
  have hdue : t₁.backoff.due env.reconnect.now = true := by
    simp only [Backoff.due, Bool.and_eq_true, Bool.not_eq_true']
    exact ⟨⟨henabled₁, decide_eq_false hspent⟩, decide_eq_false hearly⟩
  obtain ⟨exn, t₂, hattempt, hstd, hkept⟩ := attempt_fails (hfails t₁ hreach hdue)
  have hbegin : { t₁ with failedAttempts := t₁.failedAttempts + 1 } = t₁.beginAttempt := rfl
  rw [hbegin, hattempt]
  dsimp only
  rw [if_pos hstd]
  have hwritten : Survives t₁ { t₂ with
      nextAttempt := env.reconnect.next t₂.policy t₂.failedAttempts, connected := false } :=
    ⟨hkept.memory, hkept.handler, hkept.policy, hkept.reconnects, hkept.failedAttempts⟩
  exact ⟨rfl, IsTrans.trans _ _ _ hsurvives hwritten, fun _ => rfl⟩

/-! ## The outage as a whole -/

/-- What may happen in an outage: attempts to reconnect that fail, and calls of the
application that send or look at a topic. -/
def Weathers (t : SimpleAmqpTransport) : Call → Prop
  | .pump env => FailsIfDue t env
  | .send _ _ _ | .topicDepth _ | .purgeTopic _ _ => True
  | _ => False

instance (t : SimpleAmqpTransport) : (call : Call) → Decidable (Weathers t call)
  | .pump env => inferInstanceAs (Decidable (FailsIfDue t env))
  | .send _ _ _ | .topicDepth _ | .purgeTopic _ _ => .isTrue trivial
  | .connect _ _ | .setReconnectPolicy _ | .ensureTopic _ _ _ | .subscribe _ _ _ | .close =>
      .isFalse id

/-- A `pump` tells the application to go on. -/
def GoesOn (t : SimpleAmqpTransport) (call : Call) : Prop :=
  ∀ env, call = .pump env → (pump env t).1 = .ok true

theorem state_topicDepth (env : Except Exn Nat) (t : SimpleAmqpTransport) :
    (topicDepth env t).2 = t := by
  unfold topicDepth
  rw [requireChannel_bind]
  split
  · rfl
  · cases env <;> rfl

theorem state_purgeTopic (depth : Except Exn Nat) (purge : Thrown) (t : SimpleAmqpTransport) :
    (purgeTopic depth purge t).2 = t := by
  unfold purgeTopic
  rw [requireChannel_bind]
  split
  · rfl
  have hdepth := state_topicDepth depth t
  rw [Exec.bind_apply]
  rcases hrun : topicDepth depth t with ⟨r, t'⟩
  rw [hrun] at hdepth
  cases r with
  | error exn => exact hdepth
  | ok before => cases purge <;> exact hdepth

/-- `send` writes its counters and nothing else. -/
theorem state_send (payload : Bytes) (options : SendOptions) (publish : Thrown)
    (t : SimpleAmqpTransport) :
    ∃ sent bytesSent, (send payload options publish t).2 =
      { t with stats.sent := sent, stats.bytesSent := bytesSent } := by
  unfold send
  rw [requireChannel_bind]
  split
  · exact ⟨t.stats.sent, t.stats.bytesSent, rfl⟩
  split
  · exact ⟨t.stats.sent, t.stats.bytesSent, rfl⟩
  cases publish with
  | none => exact ⟨_, _, rfl⟩
  | some exn => exact ⟨t.stats.sent, t.stats.bytesSent, rfl⟩

/-- One call of an outage, made while the transport is down. -/
theorem weathers_step {t : SimpleAmqpTransport} {call : Call} (hdown : t.isReady = false)
    (henabled : t.policy.enabled = true) (hcall : Weathers t call) :
    (machine.step t call).isReady = false ∧ Survives t (machine.step t call) ∧
      (t.failedAttempts < t.policy.maxAttempts → GoesOn t call) := by
  have hsilent : (∀ env, call ≠ .pump env) → GoesOn t call :=
    fun hother env heq => absurd heq (hother env)
  have hunchanged : ∀ {u : SimpleAmqpTransport}, u = t → u.isReady = false ∧ Survives t u := by
    rintro u rfl
    exact ⟨hdown, Std.Refl.refl u⟩
  unfold machine
  dsimp only
  cases call with
  | pump env =>
      obtain ⟨hstill, hsurvives, hgoes⟩ := pump_outage (findsLost_of_down hdown env) henabled hcall
      rw [Call.method, Exec.map_apply]
      refine ⟨hstill, hsurvives, fun hleft env' heq => ?_⟩
      obtain rfl := Call.pump.inj heq
      exact hgoes hleft
  | topicDepth env =>
      rw [Call.method, Exec.map_apply]
      obtain ⟨hstill, hsurvives⟩ := hunchanged (state_topicDepth env t)
      exact ⟨hstill, hsurvives, fun _ => hsilent (by simp)⟩
  | purgeTopic depth purge =>
      rw [Call.method, Exec.map_apply]
      obtain ⟨hstill, hsurvives⟩ := hunchanged (state_purgeTopic depth purge t)
      exact ⟨hstill, hsurvives, fun _ => hsilent (by simp)⟩
  | send payload options publish =>
      obtain ⟨sent, bytesSent, hsend⟩ := state_send payload options publish t
      rw [Call.method, Exec.map_apply, hsend]
      exact ⟨hdown, ⟨rfl, rfl, rfl, rfl, Nat.le_refl _⟩, fun _ => hsilent (by simp)⟩
  | connect | setReconnectPolicy | ensureTopic | subscribe | close => exact hcall.elim

/-- The calls of an outage, from a state in which the transport is down. -/
theorem weathers_run {t : SimpleAmqpTransport} {calls : List Call} (hdown : t.isReady = false)
    (henabled : t.policy.enabled = true) (hcalls : machine.GuardedFrom Weathers t calls) :
    (machine.runFrom t calls).isReady = false ∧ Survives t (machine.runFrom t calls) ∧
      ((machine.runFrom t calls).failedAttempts < t.policy.maxAttempts →
        machine.GuardedFrom GoesOn t calls) := by
  induction calls generalizing t with
  | nil => exact ⟨hdown, Std.Refl.refl t, fun _ => trivial⟩
  | cons call rest ih =>
    obtain ⟨hfirst, hrest⟩ := hcalls
    obtain ⟨hstill, hsurvives, hgoes⟩ := weathers_step hdown henabled hfirst
    have hpolicy := hsurvives.policy
    obtain ⟨hend, hsurvived, hgone⟩ := ih hstill (hpolicy ▸ henabled) hrest
    refine ⟨hend, IsTrans.trans _ _ _ hsurvives hsurvived, fun hleft => ?_⟩
    have hbefore : t.failedAttempts ≤ (machine.runFrom (machine.step t call) rest).failedAttempts :=
      hsurvives.failedAttempts.trans hsurvived.failedAttempts
    exact ⟨hgoes (Nat.lt_of_le_of_lt hbefore hleft), hgone (hpolicy ▸ hleft)⟩

/-- What an attempt that goes through restores is what there was before the outage. -/
theorem Recovered.of_survives {t u t' : SimpleAmqpTransport} {tag : String} (h : Survives t u)
    (hrecovered : Recovered u tag t') : Recovered t tag t' where
  ready := hrecovered.ready
  channel := h.memory ▸ hrecovered.channel
  consumer := h.memory ▸ hrecovered.consumer
  memory := hrecovered.memory.trans h.memory
  handler := hrecovered.handler.trans h.handler
  policy := hrecovered.policy.trans h.policy
  failedAttempts := hrecovered.failedAttempts
  reconnects := hrecovered.reconnects.trans (congrArg (· + 1) h.reconnects)

/-- A `pump` that may try, with a broker that answers. -/
theorem pump_answers {u : SimpleAmqpTransport} {env : PumpEnv} {tag : String}
    (hdown : u.isReady = false) (henabled : u.policy.enabled = true)
    (hleft : u.failedAttempts < u.policy.maxAttempts)
    (hwaited : u.nextAttempt ≤ env.reconnect.now) (hanswers : env.reconnect.Answers tag) :
    (pump env u).1 = .ok true ∧ Recovered u tag (pump env u).2 := by
  have hpump : pump env u = serviceReconnect env.reconnect u := by
    unfold pump
    rw [Exec.get_bind, if_pos hdown]
  rw [hpump, serviceReconnect_apply, if_neg (by simp [henabled]), if_neg (Nat.not_le.mpr hleft),
    if_neg (Int.not_lt.mpr hwaited)]
  obtain ⟨t', hattempt, hrecovered⟩ := attempt_answers hanswers
    { u with failedAttempts := u.failedAttempts + 1 }
  rw [hattempt]
  exact ⟨rfl, ⟨hrecovered.ready, hrecovered.channel, hrecovered.consumer, hrecovered.memory,
    hrecovered.handler, hrecovered.policy, hrecovered.failedAttempts, hrecovered.reconnects⟩⟩

/-- A transport that has used up its policy stays down, and says so. -/
theorem pump_spent {u : SimpleAmqpTransport} (hdown : u.isReady = false)
    (hspent : u.policy.maxAttempts ≤ u.failedAttempts) (env : PumpEnv) :
    pump env u = (.ok false, u) := by
  unfold pump
  rw [Exec.get_bind, if_pos hdown, serviceReconnect_apply, if_pos hspent]
  split <;> rfl

/-- An outage begins with the `pump` that finds the connection lost.  However many
attempts then fail, and at whichever of their steps, the transport counts as down after
every call and keeps what it has to restore.  As long as the policy is not used up every
`pump` says to go on, and the first one that is not too early and that the broker answers
restores what the transport remembered before the outage.  Once it is used up every
`pump` says to stop. -/
theorem outlasts_outage {t : SimpleAmqpTransport} {first : PumpEnv} {rest : List Call}
    (henabled : t.policy.enabled = true) (hlost : FindsLost first t)
    (houtage : machine.GuardedFrom Weathers t (.pump first :: rest)) :
    let u := machine.runFrom t (.pump first :: rest)
    u.isReady = false ∧ Survives t u ∧
      (u.failedAttempts < t.policy.maxAttempts →
        machine.GuardedFrom GoesOn t (.pump first :: rest) ∧
        ∀ env tag, env.reconnect.Answers tag → u.nextAttempt ≤ env.reconnect.now →
          (pump env u).1 = .ok true ∧ Recovered t tag (pump env u).2) ∧
      (t.policy.maxAttempts ≤ u.failedAttempts → ∀ env, pump env u = (.ok false, u)) := by
  intro u
  obtain ⟨hfirst, hrest⟩ := houtage
  obtain ⟨hdown, hsurvives, hgoes⟩ := pump_outage hlost henabled hfirst
  have hstep : machine.step t (.pump first) = (pump first t).2 := by
    change (((fun _ => ()) <$> pump first : Method Unit) t).2 = _
    rw [Exec.map_apply]
  have hu : u = machine.runFrom (pump first t).2 rest := by
    rw [← hstep]
    rfl
  rw [hstep] at hrest
  obtain ⟨hend, hsurvived, hgone⟩ := weathers_run hdown (hsurvives.policy ▸ henabled) hrest
  rw [← hu] at hend hsurvived hgone
  have hwhole : Survives t u := IsTrans.trans _ _ _ hsurvives hsurvived
  have hpolicy := hwhole.policy
  refine ⟨hend, hwhole, fun hleft => ⟨⟨?_, ?_⟩, fun env tag hanswers hwaited => ?_⟩,
    fun hspent env => ?_⟩
  · rintro env heq
    obtain rfl := Call.pump.inj heq
    exact hgoes (Nat.lt_of_le_of_lt hwhole.failedAttempts hleft)
  · rw [hstep]
    exact hgone (hsurvives.policy ▸ hleft)
  · obtain ⟨htrue, hrecovered⟩ :=
      pump_answers hend (hpolicy ▸ henabled) (hpolicy ▸ hleft) hwaited hanswers
    exact ⟨htrue, hrecovered.of_survives hwhole⟩
  · exact pump_spent hend (hpolicy ▸ hspent) env

/-- A transport that consumes from a topic it has declared. -/
def consuming : SimpleAmqpTransport :=
  machine.run [.connect {} {}, .setReconnectPolicy { enabled := true },
    .ensureTopic "jobs" { maxLength := 7 } {}, .subscribe "jobs" true (.ok "ctag-1")]

/-- The receive finds the connection lost and the broker refuses connections, the
application cannot send, the next attempt gets a channel but not the topic, and a `pump`
comes too early. -/
def brokerRestart : List Call :=
  [.send [1] {} (some (.runtimeError "socket error")),
    .pump { reconnect := {
      now := 300000000, later := 300000000, declare.queue := some (.runtimeError "closed") } },
    .pump { reconnect := { now := 400000000 } }]

/-- The `pump` with which it begins. -/
def connectionForced : PumpEnv :=
  { receive := .lost, reconnect.opening.probe := .refused ⟨.other, "refused"⟩ 111 }

theorem outlasts_outage_brokerRestart :
    let u := machine.runFrom consuming (.pump connectionForced :: brokerRestart)
    let next : PumpEnv := { reconnect := { now := 900000000, consume := .ok "ctag-2" } }
    (pump next u).1 = .ok true ∧ Recovered consuming "ctag-2" (pump next u).2 ∧
      u.channel = some { declared := [("jobs", { maxLength := 7 })] } ∧
      (pump next u).2.channel = some ⟨[("jobs", { maxLength := 7 })], ["jobs"]⟩ := by
  intro u next
  have hlost : FindsLost connectionForced consuming := by
    unfold FindsLost
    decide +kernel
  have hcalls : machine.GuardedFrom Weathers consuming (.pump connectionForced :: brokerRestart) := by
    decide +kernel
  have houtage := outlasts_outage (by decide +kernel) hlost hcalls
  have hagain := (houtage.2.2.1 (by decide +kernel)).2 next "ctag-2"
    ⟨rfl, rfl, rfl, rfl, rfl, rfl, rfl⟩ (by decide +kernel)
  exact ⟨hagain.1, hagain.2, by decide +kernel, by decide +kernel⟩

end SimpleAmqpTransport

end Motus.Amqp
