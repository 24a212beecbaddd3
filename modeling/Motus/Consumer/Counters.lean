import Motus.Consumer.Staffed
import Motus.InMemory.Order

set_option autoImplicit false

/-!
# The counters of a Consumer and of its transport

A Consumer counts what it decided, its transport what it performed.  Both are written
on two paths, when a handler leaves and when a settlement is drained, and the two
increments of one path are never torn apart.

The balance has a term for what `close` gives back to the broker.  It is counted from the
deliveries the transport holds when `close` begins; `returned_step` shows that the same
deliveries are then at the head of their topic.
-/

namespace Motus.Consumer

open Motus.Foundation Motus.Transport Motus.InMemory InMemoryTransport

/-- A Consumer has counted what its transport performed, and everything its transport
received was performed, is outstanding or was returned by `close`. -/
structure Balanced (c : Consumer) (t : InMemoryTransport) : Prop where
  acked : c.acked = t.stats.acksPerformed
  rejected : c.rejected = t.stats.rejectsPerformed
  requeued : c.requeued = t.stats.requeuesPerformed
  received : t.stats.received = t.stats.acksPerformed + t.stats.rejectsPerformed +
    t.stats.requeuesPerformed + t.outstanding.size + c.ledger.returned

/-! ## Sizes -/

theorem size_of_isEmpty {o : Std.TreeMap Nat Held} (h : o.isEmpty = true) : o.size = 0 := by
  rw [Std.TreeMap.isEmpty_eq_size_eq_zero] at h
  exact eq_of_beq h

theorem length_unresolved (t : InMemoryTransport) : t.unresolved.length = t.outstanding.size := by
  rw [unresolved, List.length_map, Std.TreeMap.length_toList]

/-- A transport holds one delivery at most. -/
theorem size_of_lookup {t : InMemoryTransport} (htidy : t.Tidy) {tag : Nat} {message : Held}
    (hmessage : t.outstanding[tag]? = some message) : t.outstanding.size = 1 := by
  rw [← Std.TreeMap.length_toList, (htidy.sole tag message hmessage).1, List.length_singleton]

theorem size_taking {t : InMemoryTransport} (hempty : t.outstanding.isEmpty = true)
    (message : Held) : (t.taking message).outstanding.size = 1 := by
  rw [← Std.TreeMap.length_toList]
  exact congrArg List.length (toList_insertIfNew_of_isEmpty hempty _ message)

/-! ## One step -/

section Step

variable {c c' : Consumer} {t t' : InMemoryTransport}

/-- The observer of resolutions has no part in the balance. -/
theorem Balanced.observed (h : Balanced c t) (resolved : List Resolution) :
    Balanced { c with ledger.resolved := resolved } t :=
  ⟨h.acked, h.rejected, h.requeued, h.received⟩

theorem countSettled_eq_count {d : Disposition} (hd : d ≠ .deferred) :
    c.countSettled d = c.count d := by
  cases d with
  | deferred => exact absurd rfl hd
  | _ => rfl

/-- Nothing is decided, performed or received. -/
theorem Balanced.steady (h : Balanced c t)
    (hcounters : (c'.acked, c'.rejected, c'.requeued) = (c.acked, c.rejected, c.requeued))
    (htally : t'.stats.tally = t.stats.tally)
    (hheld : t'.outstanding.size + c'.ledger.returned = t.outstanding.size + c.ledger.returned) :
    Balanced c' t' := by
  simp only [Prod.mk.injEq] at hcounters
  simp only [Stats.tally, Prod.mk.injEq] at htally
  obtain ⟨hacked, hrejected, hrequeued⟩ := hcounters
  obtain ⟨hreceived, hacks, hrejects, hrequeues⟩ := htally
  have hbalance := h.received
  refine ⟨?_, ?_, ?_, by omega⟩
  · rw [hacked, hacks, h.acked]
  · rw [hrejected, hrejects, h.rejected]
  · rw [hrequeued, hrequeues, h.requeued]

/-- A disposition is counted by both and takes a delivery off the list. -/
theorem Balanced.counts (h : Balanced c t) {d : Disposition} (hd : d ≠ .deferred)
    {outstanding : Std.TreeMap Nat Held} (hsize : t.outstanding.size = outstanding.size + 1)
    (handling : Option Held) :
    Balanced (c.count d)
      ({ t with handling := handling, outstanding := outstanding }.counted (.ok ()) d) := by
  obtain ⟨hacked, hrejected, hrequeued, hreceived⟩ := h
  rw [hsize] at hreceived
  cases d with
  | deferred => exact absurd rfl hd
  | ack =>
      refine ⟨congrArg (· + 1) hacked, hrejected, hrequeued, ?_⟩
      simp only [counted, Stats.performed, count]
      omega
  | reject =>
      refine ⟨hacked, congrArg (· + 1) hrejected, hrequeued, ?_⟩
      simp only [counted, Stats.performed, count]
      omega
  | requeue =>
      refine ⟨hacked, hrejected, congrArg (· + 1) hrequeued, ?_⟩
      simp only [counted, Stats.performed, count]
      omega

end Step

namespace Workers

theorem Staffed.balanced_shift {w : Workers} (h : w.Staffed) {i : Nat} {a : Work} {b' : Broker}
    {c c' : Consumer} {t t' : InMemoryTransport} (hc : w.consumers i = some c)
    (ht : w.system.transports[i]? = some t)
    (hshift : Shift w.system.broker b' i a c t c' t') (hbalanced : Balanced c t) :
    Balanced c' t' := by
  have hsize : ∀ tag message, t.outstanding[tag]? = some message →
      t.outstanding.size = (t.outstanding.erase tag).size + 1 := by
    intro tag message hmessage
    rw [size_of_lookup (h.tidy ht) hmessage,
      size_of_isEmpty ((h.tidy ht).isEmpty_erase hmessage)]
  cases hshift with
  | quiet hbooks hsteady =>
      refine hbalanced.steady hbooks.counters hsteady.tally ?_
      rw [hsteady.outstanding, hbooks.ledger]
  | pushed handle d => exact hbalanced.steady rfl rfl rfl
  | closed haction hphase hidle hgone =>
      refine hbalanced.steady rfl (by rw [hgone.stats]) ?_
      rw [size_of_isEmpty hgone.outstanding, length_unresolved]
      dsimp only
      omega
  | subscribed topic => exact hbalanced.steady rfl rfl rfl
  | popped handle d rest => exact hbalanced.steady rfl rfl rfl
  | settled handle d message hd haction hphase hconnected hmessage =>
      rw [countSettled_eq_count hd]
      have hhanded : Balanced (c.handed handle d (.ok ())) t := hbalanced.steady rfl rfl rfl
      exact (hhanded.counts hd (hsize handle message hmessage) t.handling).steady rfl rfl rfl
  | failed handle d message e hd haction hphase hmessage hfails =>
      rw [h.performs hc ht hmessage] at hfails
      exact absurd hfails (by simp)
  | refused handle d e => exact hbalanced.steady rfl rfl rfl
  | called state message rest haction hphase hidle hconnected hhandler hempty =>
      have hreceived := hbalanced.received
      rw [size_of_isEmpty hempty] at hreceived
      refine ⟨hbalanced.acked, hbalanced.rejected, hbalanced.requeued, ?_⟩
      rw [size_taking hempty]
      dsimp only [taking]
      omega
  | escaped message ending what => exact hbalanced.steady rfl rfl rfl
  | deferred message ending => exact hbalanced.steady rfl rfl rfl
  | concluded message ending d hd haction hphase hmessage =>
      have hheld := (h.seats.of_lookup hc ht).held message hmessage
      rw [h.performs hc ht hheld]
      have hidle : Balanced { c with phase := .idle } t := hbalanced.steady rfl rfl rfl
      exact hidle.counts hd (hsize _ message hheld) none

/-- In every state of every run the counters of every Consumer are those of its
transport, and nothing it received is unaccounted for. -/
theorem always_balanced (actions : List Work) :
    machine.Always (Each fun _ => Balanced) actions := by
  refine (Machine.AlwaysFrom.of_step (m := machine)
    (I := fun w => w.Staffed ∧ w.Each fun _ => Balanced) actions (fun w a h => ?_)
    ⟨staffed_init, each_init⟩).mono fun w h => h.2
  refine ⟨h.1.step a, h.2.step (fun i c t hconstructs => ?_)
    fun i c t c' t' hc ht hshift hbalanced =>
      (h.1.balanced_shift hc ht hshift hbalanced).observed _⟩
  obtain ⟨hempty, -⟩ := h.1.empty_of_constructs hconstructs
  have hunused := hconstructs.unused
  simp only [unused, Stats.tally, Bool.and_eq_true, beq_iff_eq, Prod.mk.injEq] at hunused
  obtain ⟨-, hreceived, hacks, hrejects, hrequeues⟩ := hunused
  rw [hconstructs.fresh]
  refine ⟨hacks.symm, hrejects.symm, hrequeues.symm, ?_⟩
  rw [hreceived, hacks, hrejects, hrequeues, size_of_isEmpty hempty]
  rfl

/-! ## What the broker got back -/

theorem waitingAt_putBackAll (b : Broker) (i : Nat) (topic : Topic) (messages : List Held) :
    (b.putBackAll i topic messages).waitingAt topic =
      messages.map (fun message => { message with redelivered := true }) ++ b.waitingAt topic := by
  induction messages with
  | nil => rfl
  | cons message rest ih =>
      have hback : b.putBackAll i topic (message :: rest) =
          (b.putBackAll i topic rest).putBackOne i topic message := rfl
      rw [hback, List.map_cons, List.cons_append, ← ih, Broker.waitingAt, Broker.putBackOne,
        Broker.find_log, Broker.find_pushFront, if_pos rfl]
      rfl

/-- A `close` that the owner of the transport makes. -/
theorem broker_step_close {w : Workers} {i : Nat} {c : Consumer} {t : InMemoryTransport}
    (hc : w.consumers i = some c) (ht : w.system.transports[i]? = some t)
    (hphase : c.phase = .idle) (hidle : t.idle = true) :
    (w.step (.call (.close i))).system.broker =
      w.system.broker.putBackAll i t.topic t.unresolved := by
  have hmay : w.mayCall (.close i) = true := by
    simp only [mayCall, Action.transport, Option.bind_some, hc, leaves, hphase, beq_self_eq_true]
  obtain ⟨outstanding, -, hreturn⟩ := returnOutstanding_apply i w.system.broker t
  have hsystem : (w.step (.call (.close i))).system = w.system.step (.close i) := by
    simp only [Workers.step, act, hmay, if_true]
  rw [hsystem, System.step, System.call_of_may _ ht hidle, InMemoryTransport.close,
    Exec.bind_ok hreturn]
  rfl

/-- What a Consumer's ledger has as returned, the broker got back: only a `close` adds to it,
and that puts as many deliveries, flagged, before what waits at their topic. -/
theorem returned_step {w : Workers} {i : Nat} {c : Consumer} {t : InMemoryTransport}
    (hc : w.consumers i = some c) (ht : w.system.transports[i]? = some t) (a : Work) :
    ∃ (c' : Consumer) (back : List Held), (machine.step w a).consumers i = some c' ∧
      c'.ledger.returned = c.ledger.returned + back.length ∧
      (back = [] ∨ (machine.step w a).system.broker.waitingAt t.topic =
        back.map (fun message : Held => { message with redelivered := true }) ++
          w.system.broker.waitingAt t.topic) := by
  obtain ⟨c', t', hc', -, hshift⟩ := step_shift hc ht a
  cases hshift with
  | closed haction hphase hidle =>
      subst haction
      refine ⟨_, t.unresolved, hc', rfl, .inr ?_⟩
      rw [show machine.step w _ = w.step _ from rfl, broker_step_close hc ht hphase hidle,
        waitingAt_putBackAll]
  | quiet hbooks =>
      have hreturned : c'.ledger.returned = c.ledger.returned :=
        congrArg Ledger.returned hbooks.ledger
      exact ⟨_, [], hc', hreturned, .inl rfl⟩
  | settled handle d message hd =>
      refine ⟨_, [], hc', ?_, .inl rfl⟩
      rw [countSettled_eq_count hd]
      cases d <;> rfl
  | concluded message ending d =>
      refine ⟨_, [], hc', ?_, .inl rfl⟩
      cases d <;> rfl
  | _ => exact ⟨_, [], hc', rfl, .inl rfl⟩

end Workers

end Motus.Consumer
