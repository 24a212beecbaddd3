import Motus.Amqp.Frame
import Motus.Amqp.SimpleTransport

set_option autoImplicit false

/-!
# What a reconnection restores

A successful reconnection declares and consumes what the memory says, on both AMQP
backends.  The memory is what the calls made of it, so the reconnection restores
what the calls asked for exactly when the last topic they named, by `ensureTopic`
or by `subscribe`, is the one of the subscription and was declared with the
options given last.
-/

namespace Motus.Amqp

open Motus.Foundation Motus.Transport AmqpConnection

namespace Session

/-- What was declared and consumed from on the current channel. -/
def record (s : Session) : Option (List (Topic × TopicOptions) × List Topic) :=
  s.channel.map fun ch => (ch.declared, ch.consumed)

theorem kept_record : Kept (Exec.Same record) where
  answer := fun _ _ => rfl
  routes := fun _ _ => rfl
  channel := by
    intro s ch ch' hchannel hsame
    unfold Exec.Same record
    rw [hchannel, Option.map_some, Option.map_some, hsame.declared, hsame.consumed]
  received := by
    intro s ch body redelivered s' hchannel hhandled
    have harrived : record s' = record (arrived ch body redelivered s) := by
      rcases hhandled with _ | ⟨_ | _ | _ | _⟩ <;> rfl
    rw [Exec.Same, harrived]
    unfold record arrived
    rw [hchannel, Option.map_some, Option.map_some]

theorem record_modifyChannel (f : Channel → Channel) (w : Wire Session) :
    record (modifyChannel f w).2.owner =
      w.owner.channel.map fun ch => ((f ch).declared, (f ch).consumed) := by
  unfold record modifyChannel modifySession
  rw [Exec.modify_apply, Option.map_map]
  rfl

theorem record_declare (topic : Topic) (options : TopicOptions) (env : DeclareEnv)
    (w : Wire Session) :
    record (declare topic options env w).2.owner =
      (record w.owner).map fun r => (r.1 ++ [(topic, options)], r.2) := by
  have hrest : Exec.Along (OnOwner (Exec.Same record)) (do
      declareForensic topic options env.forensic
      declareDestination topic options env.destination) :=
    Exec.along_bind (kept_record.declareForensic topic options env.forensic)
      fun _ => kept_record.declareDestination topic options env.destination
  unfold declare
  refine (hrest (modifyChannel _ w).2).trans ?_
  rw [record_modifyChannel, record, Option.map_map]
  rfl

theorem record_startConsuming (env : ConsumeEnv) (w : Wire Session) :
    record (startConsuming env w).2.owner =
      (record w.owner).map fun r => (r.1, r.2 ++ [w.owner.memory.topic]) := by
  have hrest : Exec.Along (OnOwner (Exec.Same record)) (do
      let _ ← post (.setQos 1) env.qos
      let _ ← ask (.consume w.owner.memory.topic) env.consume
        (fun failure => "failed to subscribe to '" ++ w.owner.memory.topic ++ "': " ++ failure)
        ("timed out subscribing to '" ++ w.owner.memory.topic ++ "'")
      pure ()) := by
    apply Exec.along_bind (kept_record.post _ _)
    intro _
    exact Exec.along_bind (kept_record.ask _ _ _ _) fun _ => Exec.along_pure _
  unfold startConsuming
  refine (hrest (modifyChannel _ w).2).trans ?_
  rw [record_modifyChannel, record, Option.map_map]
  rfl

theorem record_openChannel {out : Outbound} {w w' : Wire Session}
    (h : openChannel out w = (.ok (), w')) : record w'.owner = some ([], []) := by
  obtain ⟨_, w₁, -, hwrite⟩ := Exec.bind_eq_ok h
  rw [Exec.modify_apply] at hwrite
  rw [← (Prod.mk.inj hwrite).2]
  rfl

end Session

namespace AmqpCppTransport

open Session

theorem record_redeclare {env : DeclareEnv} {t t' : AmqpCppTransport}
    (h : redeclare env t = (.ok (), t')) :
    record t'.session =
      (record t.session).map fun r => (r.1 ++ t.session.memory.redeclares, r.2) := by
  unfold redeclare at h
  rw [Exec.get_bind] at h
  split at h
  · rename_i hdeclared
    obtain ⟨_, t₁, hserve, hpure⟩ := Exec.bind_eq_ok h
    obtain ⟨c, c', -, hrun, -⟩ := serve_ok hserve
    have hrecord := record_declare t.session.memory.topic t.session.memory.topicOptions env
      ⟨c, t.session⟩
    rw [hrun] at hrecord
    rw [← (Prod.mk.inj hpure).2, hrecord, Memory.redeclares, if_pos hdeclared]
  · rename_i hdeclared
    rw [← (Prod.mk.inj h).2, Memory.redeclares, if_neg hdeclared]
    simp

theorem record_reconsume {env : ConsumeEnv} {t t' : AmqpCppTransport}
    (h : reconsume env t = (.ok (), t')) :
    record t'.session =
      (record t.session).map fun r => (r.1, r.2 ++ t.session.memory.reconsumes) := by
  unfold reconsume at h
  rw [Exec.get_bind] at h
  split at h
  · rename_i hsubscribed
    obtain ⟨c, c', -, hrun, -⟩ := serve_ok h
    have hrecord := record_startConsuming env ⟨c, t.session⟩
    rw [hrun] at hrecord
    rw [hrecord, Memory.reconsumes, if_pos hsubscribed]
  · rename_i hsubscribed
    rw [← (Prod.mk.inj h).2, Memory.reconsumes, if_neg hsubscribed]
    simp

theorem record_openConnection {env : OpenEnv} {t t' : AmqpCppTransport}
    (h : openConnection env t = (.ok (), t')) : record t'.session = some ([], []) := by
  obtain ⟨_, _, -, h⟩ := Exec.bind_eq_ok h
  obtain ⟨_, _, -, h⟩ := Exec.bind_eq_ok h
  obtain ⟨_, _, -, h⟩ := Exec.bind_eq_ok h
  obtain ⟨c, c', -, hrun, -⟩ := serve_ok h
  exact record_openChannel hrun

/-- The steps of an attempt, before it is counted. -/
def restore (env : ReconnectEnv) : Method Unit := do
  resetChannel env.channelClose
  resetConnection env.teardown
  modifySession fun s => { s with outstandingDeferred := ∅ }
  openConnection env.opening
  redeclare env.declare
  reconsume env.consume

theorem attempt_apply (env : ReconnectEnv) (t : AmqpCppTransport) :
    attempt env t =
      match restore env t with
      | (.ok _, t') => (.ok true, { t' with session := { t'.session with
          failedAttempts := 0, stats.reconnects := t'.session.stats.reconnects + 1 } })
      | (.error exn, t') => (.error exn, t') := by
  have hattempt : attempt env = (do
      restore env
      modifySession fun s => { s with
        failedAttempts := 0, stats.reconnects := s.stats.reconnects + 1 }
      pure true) := by
    simp only [attempt, restore, bind_assoc]
  rw [hattempt, Exec.bind_apply]
  rcases restore env t with ⟨r, t'⟩
  cases r <;> rfl

theorem books_restore (env : ReconnectEnv) :
    Exec.Along (OnSession (Exec.Same books)) (restore env) := by
  have hkept := keptByAttempt_books
  apply Exec.along_bind (KeptByAttempt.resetChannel hkept env.channelClose)
  intro _
  apply Exec.along_bind (KeptByAsk.resetConnection hkept.toKeptByAsk env.teardown)
  intro _
  refine Exec.along_bind (fun _ => rfl) fun _ => ?_
  apply Exec.along_bind (KeptByAttempt.openConnection hkept env.opening)
  intro _
  apply Exec.along_bind (KeptByConsume.redeclare hkept.toKeptByConsume env.declare)
  exact fun _ => KeptByConsume.reconsume hkept.toKeptByConsume env.consume

/-- When its steps have gone through, the channel is as the memory says. -/
theorem record_restore {env : ReconnectEnv} {t t' : AmqpCppTransport}
    (h : restore env t = (.ok (), t')) :
    record t'.session =
      some (t'.session.memory.redeclares, t'.session.memory.reconsumes) := by
  have hkept := keptByAttempt_books
  obtain ⟨_, t₁, -, h⟩ := Exec.bind_eq_ok h
  obtain ⟨_, t₂, -, h⟩ := Exec.bind_eq_ok h
  obtain ⟨_, t₃, -, h⟩ := Exec.bind_eq_ok h
  obtain ⟨_, t₄, hopen, h⟩ := Exec.bind_eq_ok h
  obtain ⟨_, t₅, hdeclare, hconsume⟩ := Exec.bind_eq_ok h
  have hmemory₅ : t₅.session.memory = t₄.session.memory := by
    have hbooks := KeptByConsume.redeclare hkept.toKeptByConsume env.declare t₄
    rw [hdeclare] at hbooks
    exact congrArg Prod.fst hbooks
  have hmemory' : t'.session.memory = t₅.session.memory := by
    have hbooks := KeptByConsume.reconsume hkept.toKeptByConsume env.consume t₅
    rw [hconsume] at hbooks
    exact congrArg Prod.fst hbooks
  have hrecord := record_reconsume hconsume
  rw [record_redeclare hdeclare, record_openConnection hopen, ← hmemory₅, ← hmemory'] at hrecord
  exact hrecord

/-- What a successful reconnection has done. -/
structure Restored (m : Memory) (t' : AmqpCppTransport) : Prop where
  record : record t'.session = some (m.redeclares, m.reconsumes)
  memory : t'.session.memory = m

/-- The count of reconnections moves only when one has succeeded. -/
def RestoredIfCounted (t t' : AmqpCppTransport) : Prop :=
  t'.session.stats.reconnects ≠ t.session.stats.reconnects → Restored t.session.memory t'

theorem restoredIfCounted_of_books {t t' : AmqpCppTransport}
    (h : books t'.session = books t.session) : RestoredIfCounted t t' :=
  fun hcount => absurd (congrArg Prod.snd h) hcount

theorem restoredIfCounted_serviceReconnect (env : ReconnectEnv) (t : AmqpCppTransport) :
    RestoredIfCounted t (serviceReconnect env t).2 := by
  rw [serviceReconnect_apply]
  split
  · exact restoredIfCounted_of_books rfl
  split
  · exact restoredIfCounted_of_books rfl
  split
  · exact restoredIfCounted_of_books rfl
  have hbooks := books_restore env t.beginAttempt
  rw [attempt_apply]
  rcases hrun : restore env t.beginAttempt with ⟨r, t'⟩
  rw [hrun] at hbooks
  have hmemory : t'.session.memory = t.session.memory := congrArg Prod.fst hbooks
  cases r with
  | ok _ =>
      refine fun _ => ⟨?_, hmemory⟩
      have hrecord := record_restore hrun
      rw [hmemory] at hrecord
      exact hrecord
  | error exn =>
      dsimp only
      split <;> exact restoredIfCounted_of_books hbooks

theorem restoredIfCounted_pump (env : PumpEnv) (t : AmqpCppTransport) :
    RestoredIfCounted t (pump env t).2 := by
  rw [pump_apply]
  split
  · exact restoredIfCounted_serviceReconnect env.reconnect t
  have hbooks := onSession_serve (keptByAttempt_books.pumpUntil (fun _ => false) env.turns) t
  rcases hrun : serve (pumpUntil react (fun _ => false) env.turns) t with ⟨r, t₁⟩
  rw [hrun] at hbooks
  cases r with
  | error exn => exact restoredIfCounted_of_books hbooks
  | ok _ =>
      dsimp only
      rw [pumpServed_apply]
      cases t₁.session.handlerFailure with
      | some what => exact restoredIfCounted_of_books hbooks
      | none =>
          dsimp only
          split
          · have hmemory : t₁.session.memory = t.session.memory := congrArg Prod.fst hbooks
            have hreconnects : t₁.session.stats.reconnects = t.session.stats.reconnects :=
              congrArg Prod.snd hbooks
            unfold RestoredIfCounted
            rw [← hmemory, ← hreconnects]
            exact restoredIfCounted_serviceReconnect env.reconnect t₁
          · exact restoredIfCounted_of_books hbooks

/-! ## The memory over a run -/

/-- A relation that keeps what the memory is faithful to. -/
def KeepsFaithful (s s' : Session) : Prop := s.memory.Faithful → s'.memory.Faithful

instance : IsPreorder Session KeepsFaithful where
  refl _ := id
  trans _ _ _ hst htu := htu ∘ hst

theorem keptByAll_keepsFaithful : KeptByAll KeepsFaithful where
  answer := fun _ _ => id
  routes := fun _ _ => id
  channel := fun _ _ _ _ _ => id
  received := fun _ _ _ _ _ _ hhandled => by rcases hhandled with _ | ⟨_ | _ | _ | _⟩ <;> exact id
  declared := fun _ _ _ _ => id
  consumed := fun _ _ _ _ => id
  opened := fun _ _ => id
  dropped := fun _ => id
  forgotten := fun _ => id
  sent := fun _ _ => id
  endpoint := fun _ _ => id
  resolved := fun _ _ _ => id
  performed := fun _ _ _ hperformed => by cases hperformed <;> exact id
  rethrown := fun _ _ _ => id
  policy := fun _ _ => id
  backoff := fun _ _ _ _ => id
  reconnected := fun _ => id

/-- `subscribe` names its topic before it starts to consume. -/
theorem faithful_subscribe (topic : Topic) (callable : Bool) (env : ConsumeEnv) :
    Exec.Along (OnSession KeepsFaithful) (subscribe topic callable env) := by
  apply Exec.along_bind (onSession_requireChannel _)
  intro _
  apply Exec.along_get_bind
  intro t
  split
  · exact Exec.along_throw _
  split
  · exact Exec.along_throw _
  intro t hfaithful
  have hnamed := hfaithful.name topic
  unfold modifySession
  rw [Exec.modify_bind, Exec.bind_apply]
  have hbooks := onSession_serve (keptByAttempt_books.startConsuming env)
    { t with session := { t.session with handler := true, memory := t.session.memory.name topic } }
  rcases hrun : serve (startConsuming env) _ with ⟨r, t₁⟩
  rw [hrun] at hbooks
  have hmemory : t₁.session.memory = t.session.memory.name topic := congrArg Prod.fst hbooks
  cases r with
  | error exn => exact hmemory ▸ hnamed
  | ok _ =>
      have hsubscribed := hnamed.subscribe topic rfl
      rw [← hmemory] at hsubscribed
      exact hsubscribed

theorem faithful_call (call : Call) : Exec.Along (OnSession KeepsFaithful) call.method := by
  by_cases hsubscribe : ∃ topic callable env, call = .subscribe topic callable env
  · obtain ⟨topic, callable, env, rfl⟩ := hsubscribe
    exact faithful_subscribe topic callable env
  · apply KeptByAll.call keptByAll_keepsFaithful
    · exact fun _ topic options _ _ hfaithful => hfaithful.ensure topic options
    · exact fun _ topic callable env h => absurd ⟨topic, callable, env, h⟩ hsubscribe
    · exact fun _ _ _ hfaithful => hfaithful.close

end AmqpCppTransport

theorem Process.faithful_run (calls : List AmqpCppTransport.Call) :
    (Process.machine.run calls).transport.session.memory.Faithful := by
  refine Machine.AlwaysFrom.last (P := fun p : Process => p.transport.session.memory.Faithful)
    (Machine.AlwaysFrom.of_step calls (fun p call hfaithful => ?_) Memory.faithful_init)
  unfold Process.machine Process.step
  dsimp only
  split
  · exact AmqpCppTransport.faithful_call call p.transport hfaithful
  · exact hfaithful

/-! ## The other backend -/

namespace SimpleAmqpTransport

/-- What has been declared and consumed on the channel. -/
def record (t : SimpleAmqpTransport) : Option (List (Topic × TopicOptions) × List Topic) :=
  t.channel.map fun ch => (ch.declared, ch.consumed)

/-- What the restoration is judged by, apart from the channel. -/
def books (t : SimpleAmqpTransport) : Memory × Nat := (t.memory, t.stats.reconnects)

theorem state_library (thrown : Thrown) (t : SimpleAmqpTransport) : (library thrown t).2 = t := by
  cases thrown <;> rfl

theorem state_declareForensic (options : TopicOptions) (env : DeclareEnv)
    (t : SimpleAmqpTransport) : (declareForensic options env t).2 = t := by
  unfold declareForensic
  split
  · cases env.exchange with
    | some exn => rfl
    | none =>
        cases env.forensicQueue with
        | some exn => rfl
        | none => exact state_library env.bind t
  · rfl

/-- `ensureTopic` either throws, and remembers nothing, or does all of its work. -/
theorem ensureTopic_cases (topic : Topic) (options : TopicOptions) (env : DeclareEnv)
    (t : SimpleAmqpTransport) :
    (∃ exn t', ensureTopic topic options env t = (.error exn, t') ∧ books t' = books t) ∨
      ensureTopic topic options env t = (.ok (), { t with
        channel := t.channel.map fun ch => { ch with declared := ch.declared ++ [(topic, options)] }
        memory := t.memory.store topic options }) := by
  unfold ensureTopic
  rw [requireChannel_bind]
  split
  · exact Or.inl ⟨_, t, rfl, rfl⟩
  rw [Exec.modify_bind, Exec.bind_apply]
  have hforensic := state_declareForensic options env { t with
    channel := t.channel.map (fun ch => { ch with declared := ch.declared ++ [(topic, options)] }) }
  rcases hrun : declareForensic options env _ with ⟨r, t₁⟩
  rw [hrun] at hforensic
  cases hforensic
  cases r with
  | error exn => exact Or.inl ⟨exn, _, rfl, rfl⟩
  | ok _ =>
      cases env.queue with
      | some exn => exact Or.inl ⟨exn, _, rfl, rfl⟩
      | none => exact Or.inr rfl

theorem startConsuming_cases (consume : Except Exn String) (t : SimpleAmqpTransport) :
    books (startConsuming consume t).2 = books t ∧
      record (startConsuming consume t).2 =
        (record t).map fun r => (r.1, r.2 ++ [t.memory.topic]) := by
  cases consume <;> cases hchannel : t.channel <;>
    exact ⟨rfl, by simp [startConsuming, record, hchannel]⟩

/-- The steps of an attempt, before it is counted. -/
def restore (env : ReconnectEnv) : Method Unit := do
  modify fun t => { t with channel := none }
  openChannel env.opening
  redeclare env.declare
  reconsume env.consume

theorem attempt_apply (env : ReconnectEnv) (t : SimpleAmqpTransport) :
    attempt env t =
      match restore env t with
      | (.ok _, t') => (.ok true, { t' with
          failedAttempts := 0, stats.reconnects := t'.stats.reconnects + 1 })
      | (.error exn, t') => (.error exn, t') := by
  have hattempt : attempt env = (do
      restore env
      modify fun t => { t with failedAttempts := 0, stats.reconnects := t.stats.reconnects + 1 }
      pure true) := by
    simp only [attempt, restore, bind_assoc]
  rw [hattempt, Exec.bind_apply]
  rcases restore env t with ⟨r, t'⟩
  cases r <;> rfl

theorem openChannel_cases (env : OpenEnv) (t : SimpleAmqpTransport) :
    (∃ exn, openChannel env t = (.error exn, t)) ∨
      openChannel env t = (.ok (), { t with channel := some {}, connected := true }) := by
  rcases env with ⟨probe, create⟩
  cases probe with
  | reachable =>
      cases create with
      | none => exact Or.inr rfl
      | some exn => exact Or.inl ⟨exn, rfl⟩
  | unresolved ec => exact Or.inl ⟨_, rfl⟩
  | timedOut milliseconds => exact Or.inl ⟨_, rfl⟩
  | refused ec value => exact Or.inl ⟨_, rfl⟩

theorem redeclare_cases (env : DeclareEnv) (t : SimpleAmqpTransport) :
    books (redeclare env t).2 = books t ∧
      ∀ t', redeclare env t = (.ok (), t') →
        record t' = (record t).map fun r => (r.1 ++ t.memory.redeclares, r.2) := by
  unfold redeclare
  rw [Exec.get_bind]
  split
  · rename_i hdeclared
    have hsame : t.memory.store t.memory.topic t.memory.topicOptions = t.memory := by
      unfold Memory.store
      rw [← hdeclared]
    rcases ensureTopic_cases t.memory.topic t.memory.topicOptions env t with
      ⟨exn, t', hrun, hbooks⟩ | hrun
    · rw [hrun]
      exact ⟨hbooks, fun _ h => absurd (congrArg Prod.fst h) (by simp)⟩
    · rw [hrun, hsame]
      refine ⟨rfl, fun t' h => ?_⟩
      rw [← (Prod.mk.inj h).2, Memory.redeclares, if_pos hdeclared, record, record,
        Option.map_map, Option.map_map]
      rfl
  · rename_i hdeclared
    refine ⟨rfl, fun t' h => ?_⟩
    rw [← (Prod.mk.inj h).2, Memory.redeclares, if_neg hdeclared]
    simp

theorem reconsume_cases (consume : Except Exn String) (t : SimpleAmqpTransport) :
    books (reconsume consume t).2 = books t ∧
      record (reconsume consume t).2 =
        (record t).map fun r => (r.1, r.2 ++ t.memory.reconsumes) := by
  unfold reconsume
  rw [Exec.get_bind]
  split
  · rename_i hsubscribed
    rw [Memory.reconsumes, if_pos hsubscribed]
    exact startConsuming_cases consume t
  · rename_i hsubscribed
    rw [Memory.reconsumes, if_neg hsubscribed]
    exact ⟨rfl, by simp⟩

theorem restore_cases (env : ReconnectEnv) (t : SimpleAmqpTransport) :
    books (restore env t).2 = books t ∧
      ∀ t', restore env t = (.ok (), t') →
        record t' = some (t.memory.redeclares, t.memory.reconsumes) := by
  unfold restore
  rw [Exec.modify_bind, Exec.bind_apply]
  rcases openChannel_cases env.opening { t with channel := none } with ⟨exn, hopen⟩ | hopen
  · rw [hopen]
    exact ⟨rfl, fun _ h => absurd (congrArg Prod.fst h) (by simp)⟩
  rw [hopen]
  dsimp only
  rw [Exec.bind_apply]
  obtain ⟨hbooks, hrecord⟩ :=
    redeclare_cases env.declare { t with channel := some {}, connected := true }
  rcases hdeclare : redeclare env.declare _ with ⟨r, t₁⟩
  rw [hdeclare] at hbooks hrecord
  cases r with
  | error exn => exact ⟨hbooks, fun _ h => absurd (congrArg Prod.fst h) (by simp)⟩
  | ok _ =>
      have hmemory : t₁.memory = t.memory := congrArg Prod.fst hbooks
      obtain ⟨hbooks', hrecord'⟩ := reconsume_cases env.consume t₁
      refine ⟨hbooks'.trans hbooks, fun t' h => ?_⟩
      dsimp only at h
      rw [h, hrecord t₁ rfl, hmemory] at hrecord'
      exact hrecord'

/-- What a successful reconnection has done. -/
structure Restored (m : Memory) (t' : SimpleAmqpTransport) : Prop where
  record : record t' = some (m.redeclares, m.reconsumes)
  memory : t'.memory = m

/-- A reconnection that was counted has restored what is remembered. -/
def RestoredIfCounted (t t' : SimpleAmqpTransport) : Prop :=
  t'.stats.reconnects ≠ t.stats.reconnects → Restored t.memory t'

theorem restoredIfCounted_of_books {t t' : SimpleAmqpTransport} (h : books t' = books t) :
    RestoredIfCounted t t' :=
  fun hcount => absurd (congrArg Prod.snd h) hcount

theorem restoredIfCounted_serviceReconnect (env : ReconnectEnv) (t : SimpleAmqpTransport) :
    RestoredIfCounted t (serviceReconnect env t).2 ∧
      (serviceReconnect env t).2.memory = t.memory := by
  rw [serviceReconnect_apply]
  split
  · exact ⟨restoredIfCounted_of_books rfl, rfl⟩
  split
  · exact ⟨restoredIfCounted_of_books rfl, rfl⟩
  split
  · exact ⟨restoredIfCounted_of_books rfl, rfl⟩
  obtain ⟨hbooks, hrecord⟩ := restore_cases env { t with failedAttempts := t.failedAttempts + 1 }
  rw [attempt_apply]
  rcases hrun : restore env _ with ⟨r, t'⟩
  rw [hrun] at hbooks hrecord
  have hmemory : t'.memory = t.memory := congrArg Prod.fst hbooks
  cases r with
  | ok _ => exact ⟨fun _ => ⟨hrecord t' rfl, hmemory⟩, hmemory⟩
  | error exn =>
      dsimp only
      split
      · exact ⟨restoredIfCounted_of_books hbooks, hmemory⟩
      · exact ⟨restoredIfCounted_of_books hbooks, hmemory⟩

theorem books_perform (resolve : Thrown) (disposition : Disposition) (t : SimpleAmqpTransport) :
    books (perform resolve disposition t).2 = books t := by
  cases disposition <;> cases resolve <;> rfl

theorem restoredIfCounted_pump (env : PumpEnv) (t : SimpleAmqpTransport) :
    RestoredIfCounted t (pump env t).2 ∧ (pump env t).2.memory = t.memory := by
  have hbooks : ∀ t' : SimpleAmqpTransport, books t' = books t →
      RestoredIfCounted t t' ∧ t'.memory = t.memory :=
    fun t' h => ⟨restoredIfCounted_of_books h, congrArg Prod.fst h⟩
  unfold pump
  rw [Exec.get_bind]
  split
  · exact restoredIfCounted_serviceReconnect env.reconnect t
  split
  · exact hbooks t rfl
  cases env.receive with
  | nothing => exact hbooks t rfl
  | lost => exact restoredIfCounted_serviceReconnect env.reconnect { t with connected := false }
  | delivered body outcome resolve =>
      cases outcome with
      | threw what => exact hbooks _ rfl
      | returned disposition =>
          dsimp only
          rw [Exec.modify_bind, Exec.bind_apply]
          have hperform := books_perform resolve disposition { t with
            stats.received := t.stats.received + 1
            stats.bytesReceived := t.stats.bytesReceived + body.length }
          rcases hrun : perform resolve disposition _ with ⟨r, t'⟩
          rw [hrun] at hperform
          cases r <;> exact hbooks _ hperform

/-! ### The memory over a run -/

theorem books_topicDepth (env : Except Exn Nat) (t : SimpleAmqpTransport) :
    books (topicDepth env t).2 = books t := by
  unfold topicDepth
  rw [requireChannel_bind]
  split
  · rfl
  · cases env <;> rfl

theorem books_purgeTopic (depth : Except Exn Nat) (purge : Thrown) (t : SimpleAmqpTransport) :
    books (purgeTopic depth purge t).2 = books t := by
  unfold purgeTopic
  rw [requireChannel_bind]
  split
  · rfl
  have hdepth := books_topicDepth depth t
  rw [Exec.bind_apply]
  rcases hrun : topicDepth depth t with ⟨r, t'⟩
  rw [hrun] at hdepth
  cases r with
  | error exn => exact hdepth
  | ok before => cases purge <;> exact hdepth

theorem books_send (payload : Bytes) (options : SendOptions) (publish : Thrown)
    (t : SimpleAmqpTransport) : books (send payload options publish t).2 = books t := by
  unfold send
  rw [requireChannel_bind]
  split
  · rfl
  split
  · rfl
  · cases publish <;> rfl

theorem faithful_ensureTopic (topic : Topic) (options : TopicOptions) (env : DeclareEnv)
    {t : SimpleAmqpTransport} (h : t.memory.Faithful) :
    (Call.method (.ensureTopic topic options env) t).2.memory.Faithful := by
  rw [Call.method, Exec.bind_apply]
  rcases ensureTopic_cases topic options env t with ⟨exn, t', hrun, hbooks⟩ | hrun
  · rw [hrun]
    have hmemory : t'.memory = t.memory := congrArg Prod.fst hbooks
    exact hmemory ▸ h
  · rw [hrun]
    exact h.ensure topic options

theorem faithful_subscribe (topic : Topic) (callable : Bool) (consume : Except Exn String)
    {t : SimpleAmqpTransport} (h : t.memory.Faithful) :
    (subscribe topic callable consume t).2.memory.Faithful := by
  unfold subscribe
  rw [requireChannel_bind]
  split
  · exact h
  rw [Exec.get_bind]
  split
  · exact h
  split
  · exact h
  have hnamed := h.name topic
  cases consume with
  | error exn => exact hnamed
  | ok tag => exact hnamed.subscribe topic rfl

theorem faithful_call (call : Call) {t : SimpleAmqpTransport} (h : t.memory.Faithful) :
    (call.method t).2.memory.Faithful := by
  have hbooks : ∀ t' : SimpleAmqpTransport, books t' = books t → t'.memory.Faithful := by
    intro t' hsame
    have hmemory : t'.memory = t.memory := congrArg Prod.fst hsame
    exact hmemory ▸ h
  cases call with
  | connect endpoint env =>
      rcases openChannel_cases env { t with endpoint := endpoint } with ⟨exn, hopen⟩ | hopen
      · rw [Call.method, connect, Exec.modify_bind, hopen]
        exact h
      · rw [Call.method, connect, Exec.modify_bind, hopen]
        exact h
  | setReconnectPolicy policy => exact h
  | ensureTopic topic options env => exact faithful_ensureTopic topic options env h
  | topicDepth env =>
      rw [Call.method, Exec.map_apply]
      exact hbooks _ (books_topicDepth env t)
  | purgeTopic depth purge =>
      rw [Call.method, Exec.map_apply]
      exact hbooks _ (books_purgeTopic depth purge t)
  | send payload options publish =>
      rw [Call.method, Exec.map_apply]
      exact hbooks _ (books_send payload options publish t)
  | subscribe topic callable consume => exact faithful_subscribe topic callable consume h
  | pump env =>
      rw [Call.method, Exec.map_apply]
      exact (restoredIfCounted_pump env t).2 ▸ h
  | close => exact h.close

theorem faithful_run (calls : List Call) : (machine.run calls).memory.Faithful :=
  Machine.AlwaysFrom.last (P := fun t : SimpleAmqpTransport => t.memory.Faithful)
    (Machine.AlwaysFrom.of_step calls (fun _ call h => faithful_call call h) Memory.faithful_init)

end SimpleAmqpTransport

/-! ## What the calls asked for -/

/-- What a channel has been asked for is what the calls of a transport asked for. -/
def History.RestoredBy (history : History)
    (record : Option (List (Topic × TopicOptions) × List Topic)) : Prop :=
  ∃ declared consumed, record = some (declared, consumed) ∧ history.Restored declared consumed

theorem Memory.Faithful.restoredBy_iff {m : Memory} (h : m.Faithful)
    {record : Option (List (Topic × TopicOptions) × List Topic)}
    (hrecord : record = some (m.redeclares, m.reconsumes)) :
    m.journal.RestoredBy record ↔ m.journal.Consistent := by
  rw [← h.restored_iff]
  constructor
  · rintro ⟨declared, consumed, heq, hrestored⟩
    rw [hrecord, Option.some.injEq, Prod.mk.injEq] at heq
    rw [heq.1, heq.2]
    exact hrestored
  · exact fun hrestored => ⟨_, _, hrecord, hrestored⟩

/-- A read in which the broker confirms the handshake, a request, or two. -/
def confirmed (events : List (Callback ChannelEvent)) : List (Turn ChannelEvent) :=
  [.completed (.data [1]) { callbacks := events }]

/-- The broker confirms one request. -/
def answeredOnce : Session.Wait where
  turns := confirmed [.channel (.answered 0)]

/-- A topic without a forensic destination. -/
def plain : TopicOptions where
  deadLetter := false

/-- The handshake comes through. -/
def opened : AmqpCppTransport.OpenEnv where
  connect := { handshake := confirmed [.onReady] }

/-- A declaration that is confirmed. -/
def declares (topic : Topic) : AmqpCppTransport.Call :=
  .ensureTopic topic plain { destination := { queue := answeredOnce } }

/-- A consumer that is confirmed, its prefetch limit first. -/
def consumes : Session.ConsumeEnv where
  consume := { turns := confirmed [.channel (.answered 0), .channel (.answered 0)] }

/-- The connection is lost, and the attempt made in the same call succeeds. -/
def reconnects : AmqpCppTransport.PumpEnv where
  turns := [.completed (.failed ⟨.eof, "End of file"⟩) {}]
  reconnect :=
    { opening := opened
      declare := { destination := { queue := answeredOnce } }
      consume := consumes }

/-- A topic is declared and consumed from, on either backend. -/
def plainRun : List AmqpCppTransport.Call :=
  [.setReconnectPolicy { enabled := true }, .connect {} opened, declares "jobs",
    .subscribe "jobs" true consumes]

/-- The same run on the other transport. -/
def plainRunSimple : List SimpleAmqpTransport.Call :=
  [.setReconnectPolicy { enabled := true }, .connect {} {}, .ensureTopic "jobs" plain {},
    .subscribe "jobs" true (.ok "ctag")]

/-- Its connection is lost while it receives. -/
def reconnectsSimple : SimpleAmqpTransport.PumpEnv where
  receive := .lost

/-- A worker that consumes from `jobs` and then declares the topic of its results. -/
def declaredLaterRun : List AmqpCppTransport.Call := plainRun ++ [declares "results"]

end Motus.Amqp
