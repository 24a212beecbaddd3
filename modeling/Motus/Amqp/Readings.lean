import Motus.Amqp.Backoff

set_option autoImplicit false

/-!
# What `stats()` reads

Seven counters are the transport's own and only go up.  The two byte counters are read
from the connection: they go up as long as it is the same one, and begin again with the
next.

Two readings of one run are compared wherever they lie.  What a call may do to the
counters is a preorder, so nothing has to be said about the calls in between.
-/

namespace Motus.Transport

/-- The counters a transport keeps itself have not gone down. -/
structure Stats.CountsOn (stats stats' : Stats) : Prop where
  sent : stats.sent ≤ stats'.sent
  received : stats.received ≤ stats'.received
  acksPerformed : stats.acksPerformed ≤ stats'.acksPerformed
  rejectsPerformed : stats.rejectsPerformed ≤ stats'.rejectsPerformed
  requeuesPerformed : stats.requeuesPerformed ≤ stats'.requeuesPerformed
  abandoned : stats.abandoned ≤ stats'.abandoned
  reconnects : stats.reconnects ≤ stats'.reconnects

/-- No counter has gone down. -/
structure Stats.NoLess (stats stats' : Stats) : Prop extends Stats.CountsOn stats stats' where
  bytesSent : stats.bytesSent ≤ stats'.bytesSent
  bytesReceived : stats.bytesReceived ≤ stats'.bytesReceived

theorem Stats.CountsOn.refl (stats : Stats) : stats.CountsOn stats :=
  ⟨le_refl _, le_refl _, le_refl _, le_refl _, le_refl _, le_refl _, le_refl _⟩

instance : IsPreorder Stats Stats.CountsOn where
  refl := Stats.CountsOn.refl
  trans _ _ _ hst htu :=
    { sent := hst.sent.trans htu.sent
      received := hst.received.trans htu.received
      acksPerformed := hst.acksPerformed.trans htu.acksPerformed
      rejectsPerformed := hst.rejectsPerformed.trans htu.rejectsPerformed
      requeuesPerformed := hst.requeuesPerformed.trans htu.requeuesPerformed
      abandoned := hst.abandoned.trans htu.abandoned
      reconnects := hst.reconnects.trans htu.reconnects }

instance : IsPreorder Stats Stats.NoLess where
  refl stats := ⟨.refl stats, le_refl _, le_refl _⟩
  trans _ _ _ hst htu :=
    ⟨IsTrans.trans _ _ _ hst.toCountsOn htu.toCountsOn, hst.bytesSent.trans htu.bytesSent,
      hst.bytesReceived.trans htu.bytesReceived⟩

end Motus.Transport

namespace Motus.Amqp

open Motus.Foundation Motus.Transport

/-! ## The bytes of one connection -/

namespace AmqpConnection

/-- The byte counters have not gone down. -/
def Carries (c c' : AmqpConnection) : Prop :=
  c.bytesSent ≤ c'.bytesSent ∧ c.bytesReceived ≤ c'.bytesReceived

instance : IsPreorder AmqpConnection Carries where
  refl _ := ⟨le_refl _, le_refl _⟩
  trans _ _ _ hcd hde := ⟨hcd.1.trans hde.1, hcd.2.trans hde.2⟩

theorem carries_onData (out : Outbound) (c : AmqpConnection) : Carries c (onData out c).2 := by
  rw [onData_apply]
  cases c.socket.write out <;> exact ⟨Nat.le_add_right _ _, le_refl _⟩

theorem Event.carries_step (c : AmqpConnection) (e : Event) : Carries c (e.step c) := by
  have hsame : Carries c c := Std.Refl.refl c
  cases e with
  | reachPeer reach => cases reach <;> exact hsame
  | onData out => exact carries_onData out c
  | constructLibrary header =>
      have hheader := carries_onData header c
      simp only [Event.step, constructLibrary_apply]
      rcases hrun : AmqpConnection.onData header c with ⟨r, c'⟩
      rw [hrun] at hheader
      cases r <;> exact hheader
  | onReady => exact hsame
  | onError message => exact hsame
  | onClosed => exact hsame
  | readCompleted result =>
      simp only [Event.step, readCompleted_apply]
      cases c.socket.read result with
      | data bytes => exact ⟨le_refl _, Nat.le_add_right _ _⟩
      | failed ec => exact hsame
  | parsed consumed => exact hsame
  | readExpired drained =>
      simp only [Event.step, AmqpConnection.readExpired, Exec.modify_apply]
      cases c.socket.read drained with
      | data bytes => exact hsame
      | failed ec => dsimp only; split <;> exact hsame
  | closeLibrary out =>
      simp only [Event.step, closeLibrary_apply]
      split
      · exact carries_onData out { c with library := .unusable }
      · exact hsame
  | closeReturned => exact hsame

theorem Steps.carries {kind : Event → Prop} {c c' : AmqpConnection} (h : Steps kind c c') :
    Carries c c' := by
  induction h with
  | refl => exact Std.Refl.refl c
  | tail _ hlast ih =>
      obtain ⟨e, -, rfl⟩ := hlast
      exact IsTrans.trans _ _ _ ih (Event.carries_step _ e)

end AmqpConnection

/-! ## The counters of a session -/

namespace Session

/-- A session counts on, and leaves the byte counters to the connection. -/
def Counts (s s' : Session) : Prop :=
  s.stats.CountsOn s'.stats ∧ s'.stats.bytesSent = s.stats.bytesSent ∧
    s'.stats.bytesReceived = s.stats.bytesReceived

instance : IsPreorder Session Counts where
  refl s := ⟨.refl s.stats, rfl, rfl⟩
  trans _ _ _ hst htu :=
    ⟨IsTrans.trans _ _ _ hst.1 htu.1, htu.2.1.trans hst.2.1, htu.2.2.trans hst.2.2⟩

theorem Counts.refl (s : Session) : Counts s s := ⟨.refl s.stats, rfl, rfl⟩

theorem counts_counted (disposition : Disposition) (s : Session) :
    Counts s (counted disposition s) :=
  ⟨{ Stats.CountsOn.refl s.stats with
      acksPerformed := Nat.le_add_right _ _
      rejectsPerformed := Nat.le_add_right _ _
      requeuesPerformed := Nat.le_add_right _ _ }, rfl, rfl⟩

theorem Counts.performed {tag : Nat} {s s' : Session} (h : Performed tag s s') :
    Counts s s' := by
  cases h with
  | deferred => exact .refl s
  | accepted disposition hfinal => exact counts_counted disposition s
  | refused disposition hfinal => exact counts_counted disposition s
  | failed disposition hfinal => exact .refl s

theorem Counts.handled {tag : Nat} {s s' : Session} (h : Handled tag s s') : Counts s s' := by
  cases h with
  | threw what =>
      exact ⟨{ Stats.CountsOn.refl s.stats with abandoned := Nat.le_succ _ }, rfl, rfl⟩
  | returned hperformed => exact .performed hperformed

theorem keptByAll_counts : KeptByAll Counts where
  answer := fun s _ => .refl s
  routes := fun s _ => .refl s
  channel := fun s _ _ _ _ => .refl s
  received := fun s ch body redelivered s' _ hhandled => by
    have harrived : Counts s (arrived ch body redelivered s) :=
      ⟨{ Stats.CountsOn.refl s.stats with received := Nat.le_succ _ }, rfl, rfl⟩
    exact IsTrans.trans _ _ _ harrived (.handled hhandled)
  declared := fun s _ _ _ => .refl s
  consumed := fun s _ _ _ => .refl s
  opened := fun s _ => .refl s
  dropped := fun s => .refl s
  forgotten := fun s => .refl s
  sent := fun s _ => ⟨{ Stats.CountsOn.refl s.stats with sent := Nat.le_succ _ }, rfl, rfl⟩
  endpoint := fun s _ => .refl s
  resolved := fun s _ _ => .refl s
  performed := fun _ _ _ hperformed => .performed hperformed
  rethrown := fun s _ _ => .refl s
  policy := fun s _ => .refl s
  backoff := fun s _ _ _ => .refl s
  reconnected := fun s =>
    ⟨{ Stats.CountsOn.refl s.stats with reconnects := Nat.le_succ _ }, rfl, rfl⟩

end Session

/-! ## The bytes over a call -/

namespace AmqpCppTransport

open AmqpConnection Session

/-- The connection is the same one, and has carried on. -/
def Continues (t t' : AmqpCppTransport) : Prop := Option.Rel Carries t.connection t'.connection

theorem carries_trans {x y z : Option AmqpConnection} (hxy : Option.Rel Carries x y)
    (hyz : Option.Rel Carries y z) : Option.Rel Carries x z := by
  cases hxy with
  | none => exact hyz
  | some hcd =>
      cases hyz with
      | some hde => exact .some (IsTrans.trans _ _ _ hcd hde)

instance : IsPreorder AmqpCppTransport Continues where
  refl t := by
    unfold Continues
    cases t.connection with
    | none => exact .none
    | some c => exact .some (Std.Refl.refl c)
  trans _ _ _ htu huv := carries_trans htu huv

theorem continues_session (t : AmqpCppTransport) (s : Session) :
    Continues t { t with session := s } := Std.Refl.refl (r := Continues) t

theorem continues_modifySession (f : Session → Session) :
    Exec.Along Continues (modifySession f) := fun t => continues_session t (f t.session)

theorem continues_requireChannel (method : String) :
    Exec.Along Continues (requireChannel method) := by
  apply Exec.along_get_bind
  intro t
  split
  · exact Exec.along_throw _
  · exact Exec.along_pure _

theorem continues_serve {α : Type} {kind : Event → Prop} {x : Serving Session α}
    (hx : Exec.Along (WireSteps kind) x) : Exec.Along Continues (serve x) := by
  intro t
  unfold serve
  cases hconnection : t.connection with
  | none =>
      change Continues t t
      exact Std.Refl.refl t
  | some c =>
      unfold Continues
      rw [hconnection]
      exact .some (hx ⟨c, t.session⟩).carries

theorem steps_owner (w : Wire Session) (s : Session) :
    WireSteps Event.OfServing w { w with owner := s } := Steps.refl w.connection

theorem continues_emit (out : Outbound) : Exec.Along Continues (serve (emit out)) :=
  continues_serve (along_emit steps_onData out)

theorem continues_ask (request : Request) (wait : Wait) (refused : String → String)
    (timedOut : String) : Exec.Along Continues (serve (ask request wait refused timedOut)) :=
  continues_serve
    (along_ask steps_owner steps_onData (steps_pumpUntil steps_react) request wait _ _)

theorem continues_send (topic : Topic) (payload : Bytes) (options : SendOptions)
    (out : Outbound) : Exec.Along Continues (send topic payload options out) := by
  apply Exec.along_bind (continues_requireChannel _)
  intro _
  split
  · exact Exec.along_throw _
  apply Exec.along_bind (continues_emit out)
  intro accepted
  split
  · exact Exec.along_bind (continues_modifySession _) fun _ => Exec.along_pure _
  · exact Exec.along_pure _

theorem continues_subscribe (topic : Topic) (callable : Bool) (env : ConsumeEnv) :
    Exec.Along Continues (subscribe topic callable env) := by
  have hconsume : Exec.Along Continues (serve (startConsuming env)) :=
    continues_serve
      (along_startConsuming steps_owner steps_onData (steps_pumpUntil steps_react) env)
  apply Exec.along_bind (continues_requireChannel _)
  intro _
  apply Exec.along_get_bind
  intro t
  split
  · exact Exec.along_throw _
  split
  · exact Exec.along_throw _
  apply Exec.along_bind (continues_modifySession _)
  intro _
  exact Exec.along_bind hconsume fun _ => continues_modifySession _

theorem continues_settle (tag : Nat) (disposition : Disposition) (out : Outbound) :
    Exec.Along Continues (settle tag disposition out) := by
  apply Exec.along_bind (continues_requireChannel _)
  intro _
  apply Exec.along_get_bind
  intro t
  split
  · exact Exec.along_throw _
  split
  · exact Exec.along_throw _
  apply Exec.along_bind (continues_modifySession _)
  exact fun _ => continues_serve (along_perform steps_owner steps_onData tag out disposition)

theorem continues_close (env : CloseEnv) : Exec.Along Continues (close env) := by
  have hchannel : Exec.Along Continues (resetChannel env.channelClose) := by
    apply Exec.along_get_bind
    intro t
    split
    · apply Exec.along_bind
      · exact Exec.along_tryCatch (continues_emit _) fun _ => Exec.along_throw _
      · exact fun _ => continues_modifySession _
    · exact continues_modifySession _
  have hconnection : Exec.Along Continues (closeConnection env) := by
    apply Exec.along_get_bind
    intro t
    split
    · exact continues_serve (steps_close steps_react env.close env.turns)
    · exact Exec.along_pure _
  apply Exec.along_bind (continues_modifySession _)
  intro _
  apply Exec.along_bind hchannel
  intro _
  exact Exec.along_bind hconnection fun _ => continues_modifySession _

/-- An attempt is due: the rest of `serviceReconnect` gives the connection up. -/
def isDue (env : ReconnectEnv) (t : AmqpCppTransport) : Bool :=
  t.session.policy.enabled && decide (t.session.failedAttempts < t.session.policy.maxAttempts) &&
    decide (t.session.nextAttempt ≤ env.now)

theorem serviceReconnect_of_not_due {env : ReconnectEnv} {t : AmqpCppTransport}
    (h : isDue env t = false) : (serviceReconnect env t).2 = t := by
  rw [serviceReconnect_apply]
  split
  · rfl
  next henabled =>
  split
  · rfl
  next hspent =>
  split
  · rfl
  next hearly =>
  have hdue : isDue env t = true := by
    simp only [isDue, Bool.and_eq_true, decide_eq_true_eq]
    exact ⟨⟨by simpa using henabled, not_le.mp hspent⟩, not_lt.mp hearly⟩
  exact absurd (h.symm.trans hdue) Bool.false_ne_true

/-- Where a call gives up the connection there is, if it does. -/
def givesUp (t : AmqpCppTransport) : Call → Option AmqpCppTransport
  | .connect _ _ => some t
  | .pump env => (reconnects env t).filter (isDue env.reconnect)
  | _ => none

/-- A call goes on with the connection, or gets to where it gives it up. -/
theorem continues_call (call : Call) (hlives : call.destroys = false) (t : AmqpCppTransport) :
    Continues t (call.method t).2 ∨ ∃ t', t.givesUp call = some t' ∧ Continues t t' := by
  cases call with
  | connect endpoint env => exact .inr ⟨t, rfl, Std.Refl.refl t⟩
  | setReconnectPolicy policy => exact .inl (continues_session t _)
  | ensureTopic topic options env =>
      have hdeclare : Exec.Along Continues (serve (declare topic options env)) :=
        continues_serve
          (along_declare steps_owner steps_onData (steps_pumpUntil steps_react) topic options env)
      exact .inl (Exec.along_bind (continues_requireChannel _)
        (fun _ => Exec.along_bind hdeclare fun _ => continues_modifySession _) t)
  | topicDepth topic env =>
      rw [Call.method, Exec.map_apply]
      exact .inl (Exec.along_bind (continues_requireChannel _)
        (fun _ => continues_ask _ _ _ _) t)
  | purgeTopic topic env =>
      rw [Call.method, Exec.map_apply]
      exact .inl (Exec.along_bind (continues_requireChannel _)
        (fun _ => continues_ask _ _ _ _) t)
  | send topic payload options out =>
      rw [Call.method, Exec.map_apply]
      exact .inl (continues_send topic payload options out t)
  | subscribe topic callable env => exact .inl (continues_subscribe topic callable env t)
  | settle tag disposition out => exact .inl (continues_settle tag disposition out t)
  | close env => exact .inl (continues_close env t)
  | destroy env => exact absurd hlives (by simp [Call.destroys])
  | pump env =>
      rw [Call.method, Exec.map_apply]
      have hserve : Exec.Along Continues (serve (pumpUntil react (fun _ => false) env.turns)) :=
        continues_serve (steps_pumpUntil steps_react _ env.turns)
      rcases pump_cases hserve (fun t what => continues_session t _) t with
        ⟨-, hcontinues⟩ | ⟨t', hreconnects, hcontinues, hpump⟩
      · exact .inl hcontinues
      · cases hdue : isDue env.reconnect t' with
        | true =>
            refine .inr ⟨t', ?_, hcontinues⟩
            rw [givesUp, hreconnects]
            exact if_pos hdue
        | false =>
            left
            rw [hpump]
            dsimp only
            rw [serviceReconnect_of_not_due hdue]
            exact hcontinues

/-! ## Two readings -/

/-- The transport leaves the byte counters of `_stats` alone. -/
def Unwritten (t : AmqpCppTransport) : Prop :=
  t.session.stats.bytesSent = 0 ∧ t.session.stats.bytesReceived = 0

/-- Nothing has gone over the connection. -/
def Untouched (t : AmqpCppTransport) : Prop :=
  ∀ c ∈ t.connection, c.bytesSent = 0 ∧ c.bytesReceived = 0

instance (t : AmqpCppTransport) : Decidable t.Untouched :=
  inferInstanceAs (Decidable (∀ c ∈ t.connection, _ = 0 ∧ _ = 0))

/-- The reading after a call that goes on with the connection. -/
theorem noLess_of_continues {t t' : AmqpCppTransport} (hcounts : Counts t.session t'.session)
    (hcontinues : Continues t t') : t.statsSnapshot.NoLess t'.statsSnapshot := by
  obtain ⟨hcountsOn, hsent, hreceived⟩ := hcounts
  unfold Continues at hcontinues
  unfold statsSnapshot
  cases hbefore : t.connection with
  | none =>
      rw [hbefore] at hcontinues
      cases hafter : t'.connection with
      | none => exact ⟨hcountsOn, hsent.ge, hreceived.ge⟩
      | some c' =>
          rw [hafter] at hcontinues
          cases hcontinues
  | some c =>
      rw [hbefore] at hcontinues
      cases hafter : t'.connection with
      | none =>
          rw [hafter] at hcontinues
          cases hcontinues
      | some c' =>
          rw [hafter] at hcontinues
          cases hcontinues with
          | some hcarries => exact ⟨{ hcountsOn with }, hcarries.1, hcarries.2⟩

/-- A reading of zero bytes is no more than any that follows. -/
theorem noLess_of_untouched {t t' : AmqpCppTransport} (hcounts : Counts t.session t'.session)
    (hunwritten : t.Unwritten) (huntouched : t.Untouched) :
    t.statsSnapshot.NoLess t'.statsSnapshot := by
  have hread : t.session.stats.CountsOn t'.statsSnapshot := by
    unfold statsSnapshot
    cases t'.connection with
    | none => exact hcounts.1
    | some c' => exact { hcounts.1 with }
  unfold statsSnapshot
  cases hconnection : t.connection with
  | none =>
      refine ⟨hread, ?_, ?_⟩
      · rw [hunwritten.1]
        exact Nat.zero_le _
      · rw [hunwritten.2]
        exact Nat.zero_le _
  | some c =>
      obtain ⟨hsent, hreceived⟩ := huntouched c hconnection
      refine ⟨{ hread with }, ?_, ?_⟩
      · dsimp only
        rw [hsent]
        exact Nat.zero_le _
      · dsimp only
        rw [hreceived]
        exact Nat.zero_le _

/-- A connection that has carried nothing in the end had carried nothing before. -/
theorem Continues.untouched {t t' : AmqpCppTransport} (h : Continues t t')
    (huntouched : t'.Untouched) : t.Untouched := by
  intro c hc
  unfold Continues at h
  rw [Option.mem_def.mp hc] at h
  cases hafter : t'.connection with
  | none =>
      rw [hafter] at h
      cases h
  | some c' =>
      obtain ⟨hsent, hreceived⟩ := huntouched c' hafter
      rw [hafter] at h
      cases h with
      | some hcarries => exact ⟨by have := hcarries.1; omega, by have := hcarries.2; omega⟩

end AmqpCppTransport

namespace Process

open AmqpCppTransport Session

/-- The call gives up no connection that has carried anything. -/
def Retains (p : Process) (call : Call) : Prop :=
  p.running = true → ∀ t' ∈ p.transport.givesUp call, t'.Untouched

instance (p : Process) (call : Call) : Decidable (p.Retains call) :=
  inferInstanceAs (Decidable (_ = true → ∀ t' ∈ p.transport.givesUp call, t'.Untouched))

/-- What two readings have to each other, the second while there still is a transport. -/
def ReadsOn (R : Stats → Stats → Prop) (p p' : Process) : Prop :=
  p'.running = true → p.running = true ∧ R p.transport.statsSnapshot p'.transport.statsSnapshot

instance {R : Stats → Stats → Prop} [IsPreorder Stats R] : IsPreorder Process (ReadsOn R) where
  refl _ hruns := ⟨hruns, Std.Refl.refl _⟩
  trans _ _ _ hpq hqr hruns := by
    obtain ⟨hmiddle, hlater⟩ := hqr hruns
    obtain ⟨hfirst, hearlier⟩ := hpq hmiddle
    exact ⟨hfirst, IsTrans.trans _ _ _ hearlier hlater⟩

theorem counts_call (call : Call) : Exec.Along (OnSession Counts) call.method :=
  AmqpCppTransport.KeptByAll.call keptByAll_counts call (fun s _ _ _ _ => .refl s)
    (fun s _ _ _ _ => ⟨.refl s, .refl s⟩) fun s _ _ => .refl s

theorem unwritten_step (p : Process) (call : Call) (h : p.transport.Unwritten) :
    (machine.step p call).transport.Unwritten := by
  unfold machine step
  dsimp only
  split
  · obtain ⟨-, hsent, hreceived⟩ := counts_call call p.transport
    exact ⟨hsent.trans h.1, hreceived.trans h.2⟩
  · exact h

/-- The step lemma. -/
theorem readsOn_step {p : Process} {call : Call} (hunwritten : p.transport.Unwritten)
    (hretains : p.Retains call) : ReadsOn Stats.NoLess p (machine.step p call) := by
  intro hruns
  unfold machine step at hruns ⊢
  dsimp only at hruns ⊢
  by_cases hrunning : p.running = true
  · rw [if_pos hrunning] at hruns ⊢
    refine ⟨hrunning, ?_⟩
    have hlives : call.destroys = false := by
      unfold running at hruns
      dsimp only at hruns
      simp only [Bool.and_eq_true, Bool.not_eq_true'] at hruns
      exact hruns.1
    have hcounts : Counts p.transport.session (call.method p.transport).2.session :=
      counts_call call p.transport
    rcases continues_call call hlives p.transport with hcontinues | ⟨t', hgives, hcontinues⟩
    · exact noLess_of_continues hcounts hcontinues
    · have huntouched := hretains hrunning t' hgives
      exact noLess_of_untouched hcounts hunwritten (hcontinues.untouched huntouched)
  · rw [if_neg hrunning] at hruns
    exact absurd hruns hrunning

/-- Over a run in which no call gives up a connection that has carried anything, no counter
is less in a later reading than in an earlier one. -/
theorem readings_noLess {calls before after : List Call} (hretains : machine.Guarded Retains calls)
    (hbefore : before <+: after) (hafter : after <+: calls)
    (hruns : (machine.run after).running = true) :
    (machine.run before).transport.statsSnapshot.NoLess
      (machine.run after).transport.statsSnapshot := by
  have hrelated : ReadsOn Stats.NoLess (machine.run before) (machine.run after) :=
    hretains.related (I := fun p => p.transport.Unwritten)
      (fun p call hunwritten hcall => ⟨readsOn_step hunwritten hcall,
        unwritten_step p call hunwritten⟩) ⟨rfl, rfl⟩ hbefore hafter
  exact (hrelated hruns).2

/-- The counters the transport keeps itself go up over every run. -/
theorem readings_countsOn {calls before after : List Call} (hbefore : before <+: after)
    (hafter : after <+: calls) (hruns : (machine.run after).running = true) :
    (machine.run before).transport.statsSnapshot.CountsOn
      (machine.run after).transport.statsSnapshot := by
  have hread : ∀ t t' : AmqpCppTransport, t.session.stats.CountsOn t'.session.stats →
      t.statsSnapshot.CountsOn t'.statsSnapshot := by
    intro t t' h
    unfold statsSnapshot
    cases t.connection <;> cases t'.connection <;> exact { h with }
  have hstep : ∀ p call, ReadsOn Stats.CountsOn p (machine.step p call) := by
    intro p call hruns
    unfold machine step at hruns ⊢
    dsimp only at hruns ⊢
    by_cases hrunning : p.running = true
    · rw [if_pos hrunning]
      exact ⟨hrunning, hread _ _ (counts_call call p.transport).1⟩
    · rw [if_neg hrunning] at hruns
      exact absurd hruns hrunning
  have hguarded : machine.Guarded (fun _ _ => True) calls := Machine.guardedFrom_true _ calls
  have hrelated : ReadsOn Stats.CountsOn (machine.run before) (machine.run after) :=
    hguarded.related (I := fun _ => True) (fun p call _ _ => ⟨hstep p call, trivial⟩) trivial
      hbefore hafter
  exact (hrelated hruns).2

/-- A connection carries a message. -/
def carryingRun : List Call :=
  [.setReconnectPolicy { enabled := true },
    .connect {} { connect := { header := { size := 8 }, handshake := confirmed [.onReady] } },
    .send "jobs" [1] {} { size := 100 }]

theorem readings_noLess_carryingRun :
    (machine.run carryingRun).transport.statsSnapshot.NoLess
      (machine.run (carryingRun ++ [.pump {}])).transport.statsSnapshot := by
  have hretains : machine.Guarded Retains (carryingRun ++ [.pump {}]) := by decide +kernel
  exact readings_noLess hretains (List.prefix_append _ _) (List.prefix_refl _) (by decide +kernel)

/-- The peer goes away, and the reconnection succeeds. -/
def reconnectedRun : List Call :=
  carryingRun ++
    [.pump {
      turns := [.completed (.failed ⟨.eof, "End of file"⟩) {}]
      reconnect := { opening := {
        connect := { header := { size := 8 }, handshake := confirmed [.onReady] } } } }]

/-- The sent bytes read less after it, 8 for 108. -/
theorem readings_reconnectedRun :
    carryingRun <+: reconnectedRun ∧ (machine.run reconnectedRun).running = true ∧
      (machine.run reconnectedRun).transport.statsSnapshot.reconnects = 1 ∧
      ¬ (machine.run carryingRun).transport.statsSnapshot.NoLess
        (machine.run reconnectedRun).transport.statsSnapshot := by
  have hbefore : (machine.run carryingRun).transport.statsSnapshot.bytesSent = 108 := by
    decide +kernel
  have hafter : (machine.run reconnectedRun).transport.statsSnapshot.bytesSent = 8 := by
    decide +kernel
  refine ⟨List.prefix_append _ _, by decide +kernel, by decide +kernel, fun h => ?_⟩
  have hless := h.bytesSent
  omega

end Process

end Motus.Amqp
