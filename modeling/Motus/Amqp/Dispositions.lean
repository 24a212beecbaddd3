import Motus.Amqp.Remembered

set_option autoImplicit false

/-!
# What the counters of dispositions count

`acksPerformed`, `rejectsPerformed` and `requeuesPerformed` go up whenever a final
disposition is carried out and its write does not throw.  Whether the channel took
the frame is not looked at, so each counter is the number of accepted frames and
of the dispositions that were begun where no frame could be sent.
-/

namespace Motus.Amqp

open Motus.Foundation Motus.Transport AmqpConnection

namespace Session

/-- The counter of a disposition; nothing counts a deferral. -/
def performedOf (stats : Stats) : Disposition → Nat
  | .ack => stats.acksPerformed
  | .requeue => stats.requeuesPerformed
  | .reject => stats.rejectsPerformed
  | .deferred => 0

/-- The final dispositions of a kind that were begun where no frame could be sent. -/
def unsent (disposition : Disposition) (s : Session) : Nat :=
  s.resolutions.countP fun r => decide (r.disposition = disposition) && !r.sendable

/-- The counters are what the channel accepted. -/
structure CountsAccepted (s : Session) : Prop where
  acks : s.stats.acksPerformed = s.accepted.count .ack
  rejects : s.stats.rejectsPerformed = s.accepted.count .reject
  requeues : s.stats.requeuesPerformed = s.accepted.count .requeue

instance (s : Session) : Decidable s.CountsAccepted :=
  decidable_of_iff (s.stats.acksPerformed = s.accepted.count .ack ∧
      s.stats.rejectsPerformed = s.accepted.count .reject ∧
      s.stats.requeuesPerformed = s.accepted.count .requeue)
    ⟨fun ⟨hacks, hrejects, hrequeues⟩ => ⟨hacks, hrejects, hrequeues⟩,
      fun h => ⟨h.acks, h.rejects, h.requeues⟩⟩

/-- What the counters really count. -/
def Tallied (s : Session) : Prop :=
  ∀ disposition, performedOf s.stats disposition =
    s.accepted.count disposition + s.unsent disposition

theorem performedOf_counted {disposition : Disposition} (hfinal : disposition ≠ .deferred)
    (s : Session) (counter : Disposition) :
    performedOf (counted disposition s).stats counter =
      performedOf s.stats counter + if disposition = counter then 1 else 0 := by
  unfold counted
  cases counter with
  | deferred => rw [if_neg hfinal]; rfl
  | _ => rfl

theorem unsent_begun (tag : Nat) (disposition counter : Disposition) (sendable : Bool)
    (s : Session) :
    (begun tag disposition sendable s).unsent counter =
      s.unsent counter + if disposition = counter ∧ sendable = false then 1 else 0 := by
  unfold begun unsent
  rw [List.countP_cons]
  simp only [Bool.and_eq_true, decide_eq_true_eq, Bool.not_eq_true']

/-- Only the counters, the accepted frames and the dispositions matter. -/
theorem Tallied.of_same {s s' : Session} (h : s.Tallied)
    (hcounters : ∀ disposition, performedOf s'.stats disposition = performedOf s.stats disposition)
    (haccepted : s'.accepted = s.accepted) (hresolutions : s'.resolutions = s.resolutions) :
    s'.Tallied := by
  intro counter
  unfold unsent
  rw [hcounters, haccepted, hresolutions]
  exact h counter

/-- Each way to carry out a disposition is accounted for. -/
theorem Tallied.performed {tag : Nat} {s s' : Session} (h : s.Tallied)
    (hperformed : Performed tag s s') : s'.Tallied := by
  intro counter
  have hcounter := h counter
  cases hperformed with
  | deferred => exact hcounter
  | accepted disposition hfinal =>
      have hunsent : (begun tag disposition true s).unsent counter = s.unsent counter := by
        rw [unsent_begun, if_neg fun hboth => Bool.noConfusion hboth.2, Nat.add_zero]
      have hcount : (disposition :: s.accepted).count counter =
          s.accepted.count counter + if disposition = counter then 1 else 0 := by
        rw [List.count_cons]
        simp only [beq_iff_eq]
      rw [performedOf_counted hfinal]
      change performedOf s.stats counter + _ =
        (disposition :: s.accepted).count counter + (begun tag disposition true s).unsent counter
      rw [hunsent, hcount, hcounter]
      omega
  | refused disposition hfinal =>
      rw [performedOf_counted hfinal]
      change performedOf s.stats counter + _ =
        s.accepted.count counter + (begun tag disposition false s).unsent counter
      rw [unsent_begun, hcounter]
      simp only [and_true]
      omega
  | failed disposition hfinal =>
      change performedOf s.stats counter =
        s.accepted.count counter + (begun tag disposition true s).unsent counter
      rw [unsent_begun, if_neg fun hboth => Bool.noConfusion hboth.2]
      exact hcounter

theorem Tallied.handled {tag : Nat} {s s' : Session} (h : s.Tallied)
    (hhandled : Handled tag s s') : s'.Tallied := by
  cases hhandled with
  | threw what => exact h.of_same (fun counter => by cases counter <;> rfl) rfl rfl
  | returned hperformed => exact h.performed hperformed

theorem keptByAll_tallied : KeptByAll (Exec.Keeps Tallied) where
  answer := fun _ _ => id
  routes := fun _ _ => id
  channel := fun _ _ _ _ _ => id
  received := by
    intro s ch body redelivered s' _ hhandled h
    have harrived : (arrived ch body redelivered s).Tallied :=
      h.of_same (fun counter => by cases counter <;> rfl) rfl rfl
    exact harrived.handled hhandled
  declared := fun _ _ _ _ => id
  consumed := fun _ _ _ _ => id
  opened := fun _ _ => id
  dropped := fun _ => id
  forgotten := fun _ => id
  sent := fun _ _ h => h.of_same (fun counter => by cases counter <;> rfl) rfl rfl
  endpoint := fun _ _ => id
  resolved := fun _ _ _ => id
  performed := fun _ _ _ hperformed h => h.performed hperformed
  rethrown := fun _ _ _ => id
  policy := fun _ _ => id
  backoff := fun _ _ _ _ => id
  reconnected := fun _ h => h.of_same (fun counter => by cases counter <;> rfl) rfl rfl

theorem tallied_run (calls : List AmqpCppTransport.Call) :
    (Process.machine.run calls).transport.session.Tallied := by
  refine Process.holds_run (fun counter => by cases counter <;> rfl) (fun call => ?_) calls
  exact AmqpCppTransport.KeptByAll.call keptByAll_tallied call (fun _ _ _ _ _ => id)
    (fun _ _ _ _ _ => ⟨id, id⟩) fun _ _ _ => id

theorem unsent_eq_zero_iff (disposition : Disposition) (s : Session) :
    s.unsent disposition = 0 ↔
      ∀ r ∈ s.resolutions, r.disposition = disposition → r.sendable = true := by
  unfold unsent
  rw [List.countP_eq_zero]
  simp only [Bool.and_eq_true, decide_eq_true_eq, Bool.not_eq_true', not_and,
    Bool.not_eq_false]

/-- Where the account is kept, the counters are the accepted frames exactly when
everything was begun where a frame could be sent. -/
theorem Tallied.countsAccepted_iff {s : Session} (h : s.Tallied) :
    s.CountsAccepted ↔ ∀ r ∈ s.resolutions, r.sendable = true := by
  have hacks : s.stats.acksPerformed = s.accepted.count .ack + s.unsent .ack := h .ack
  have hrejects : s.stats.rejectsPerformed =
    s.accepted.count .reject + s.unsent .reject := h .reject
  have hrequeues : s.stats.requeuesPerformed =
    s.accepted.count .requeue + s.unsent .requeue := h .requeue
  have hdeferred : 0 = s.accepted.count .deferred + s.unsent .deferred := h .deferred
  constructor
  · intro hcounts r hr
    have hnone : s.unsent r.disposition = 0 := by
      cases r.disposition with
      | ack => exact Nat.left_eq_add.mp (hcounts.acks.symm.trans hacks)
      | reject => exact Nat.left_eq_add.mp (hcounts.rejects.symm.trans hrejects)
      | requeue => exact Nat.left_eq_add.mp (hcounts.requeues.symm.trans hrequeues)
      | deferred => omega
    exact (unsent_eq_zero_iff r.disposition s).mp hnone r hr rfl
  · intro hsendable
    have hnone : ∀ disposition, s.unsent disposition = 0 := fun disposition =>
      (unsent_eq_zero_iff disposition s).mpr fun r hr _ => hsendable r hr
    refine ⟨?_, ?_, ?_⟩
    · rw [hacks, hnone, Nat.add_zero]
    · rw [hrejects, hnone, Nat.add_zero]
    · rw [hrequeues, hnone, Nat.add_zero]

end Session

/-- In every state of every run the counters are the frames the channel accepted if
and only if every final disposition so far, returned by the handler or settled
later, was begun while the channel and its connection took frames. -/
theorem Process.countsAccepted_iff_sendable (calls : List AmqpCppTransport.Call) :
    (Process.machine.run calls).transport.session.CountsAccepted ↔
      ∀ r ∈ (Process.machine.run calls).transport.session.resolutions, r.sendable = true :=
  (Session.tallied_run calls).countsAccepted_iff

/-- A pump in which one message arrives. -/
def receives (outcome : HandlerOutcome) : AmqpCppTransport.PumpEnv where
  turns := confirmed [.channel (.received [1] false outcome {})]

/-- A delivery is deferred, a topic that does not exist is inspected, and the
delivery is acknowledged. -/
def closedChannelRun : List AmqpCppTransport.Call :=
  plainRun ++
    [.pump (receives (.returned .deferred)),
      .topicDepth "missing"
        { turns := confirmed [.channel (.failed (some "NOT_FOUND - no queue 'missing'"))] },
      .settle 1 .ack {}]

/-- The inspection closed the channel: the acknowledgement is counted, and no frame of
it was ever sent. -/
theorem Process.closedChannelRun_counts :
    (Process.machine.run closedChannelRun).transport.session.stats.acksPerformed = 1 ∧
      (Process.machine.run closedChannelRun).transport.session.accepted = [] ∧
      ¬ (Process.machine.run closedChannelRun).transport.session.CountsAccepted := by
  decide +kernel

end Motus.Amqp
