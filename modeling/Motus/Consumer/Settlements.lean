import Motus.Consumer.Counters

set_option autoImplicit false

/-!
# Settlements pushed by workers

Whatever the workers push is handed to `settle` in that order, and each `settle`,
whether it returns or throws, uses up the pair it was called with and no other.  When
every deferred delivery is pushed once, no `settle` throws and each delivery is
resolved once, as its worker decided.
-/

namespace Motus.Consumer

open Motus.Foundation Motus.Transport Motus.InMemory InMemoryTransport

/-- What `push` was called with. -/
def Push.pair (p : Push) : Nat × Disposition := (p.handle, p.disposition)

/-- What `settle` was called with. -/
def Handed.pair (h : Handed) : Nat × Disposition := (h.handle, h.disposition)

/-- What was pushed and not yet handed to `settle`, oldest first. -/
def waiting (c : Consumer) : List (Nat × Disposition) := c.inFlight ++ c.settlements.pending

/-- What was handed to `settle` is what was pushed, in that order and without gaps or
repetitions, but for what still waits. -/
def InOrder (c : Consumer) : Prop :=
  c.ledger.handed.map Handed.pair ++ c.waiting = c.ledger.pushed.map Push.pair

/-! ## In order -/

section Shift

variable {b b' : Broker} {i : Nat} {a : Work} {c c' : Consumer} {t t' : InMemoryTransport}

theorem inFlight_of_resting (h : c.phase.resting = true) : c.inFlight = [] := by
  unfold inFlight
  cases hphase : c.phase with
  | settling handle d => rw [hphase] at h; exact absurd h Bool.false_ne_true
  | _ => rfl

theorem SameBooks.waiting (h : SameBooks c c') : c'.waiting = c.waiting := by
  rw [Consumer.waiting, Consumer.waiting, h.settlements]
  rcases h.phase with hphase | ⟨hbefore, hafter⟩
  · rw [inFlight, inFlight, hphase]
  · rw [inFlight_of_resting hbefore, inFlight_of_resting hafter]

/-- What a piece of work does to the settlements of a Consumer: nothing, one more is
pushed, or the oldest is handed over. -/
inductive Hands (c c' : Consumer) : Prop where
  | same (hwaiting : c'.waiting = c.waiting) (hhanded : c'.ledger.handed = c.ledger.handed)
      (hpushed : c'.ledger.pushed = c.ledger.pushed)
  | pushes (push : Push) (hwaiting : c'.waiting = c.waiting ++ [push.pair])
      (hhanded : c'.ledger.handed = c.ledger.handed)
      (hpushed : c'.ledger.pushed = c.ledger.pushed ++ [push])
  /-- by a `settle` that returned or threw -/
  | hands (handed : Handed) (hphase : c.phase = .settling handed.handle handed.disposition)
      (hhanded : c'.ledger.handed = c.ledger.handed ++ [handed])
      (hsettlements : c'.settlements = c.settlements)
      (hafter : c'.phase =
        match handed.result with
        | .ok _ => .draining
        | .error _ => .idle)
      (hpushed : c'.ledger.pushed = c.ledger.pushed)

@[simp] theorem count_settlements (d : Disposition) :
    (c.count d).settlements = c.settlements := by
  cases d <;> rfl

@[simp] theorem count_phase (d : Disposition) : (c.count d).phase = c.phase := by
  cases d <;> rfl

@[simp] theorem count_ledger (d : Disposition) : (c.count d).ledger = c.ledger := by
  cases d <;> rfl

/-- Neither phase has something popped. -/
theorem waiting_of_phases (hsettlements : c'.settlements = c.settlements)
    (hphase : c.inFlight = []) (hphase' : c'.inFlight = []) : c'.waiting = c.waiting := by
  rw [waiting, waiting, hsettlements, hphase, hphase']

theorem Shift.hands (h : Shift b b' i a c t c' t') : Hands c c' := by
  have hleft : c.phase = .handling → ∀ d, Hands c (({ c with phase := .idle } : Consumer).count d) := by
    intro hphase d
    refine .same (waiting_of_phases (count_settlements d) ?_ ?_) ?_ ?_
    · simp [inFlight, hphase]
    · simp [inFlight]
    · rw [count_ledger]
    · rw [count_ledger]
  cases h with
  | quiet hbooks hsteady =>
      exact .same hbooks.waiting (by rw [hbooks.ledger]) (by rw [hbooks.ledger])
  | pushed handle d =>
      exact .pushes ⟨handle, d, t.stats.received⟩ (List.append_assoc _ _ _).symm rfl rfl
  | closed haction hphase => exact .same rfl rfl rfl
  | subscribed topic options haction hphase =>
      refine .same (waiting_of_phases rfl ?_ rfl) rfl rfl
      simp [inFlight, hphase]
  | popped handle d rest haction hphase hpending =>
      refine .same ?_ rfl rfl
      simp [waiting, inFlight, hphase, hpending]
  | settled handle d message hd haction hphase =>
      rw [countSettled_eq_count hd]
      have hledger := count_ledger (c := c.handed handle d (.ok ())) d
      have hhanded := congrArg Ledger.handed hledger
      have hpushed := congrArg Ledger.pushed hledger
      exact .hands ⟨handle, d, .ok ()⟩ hphase hhanded (count_settlements d) rfl hpushed
  | failed handle d message e hd haction hphase =>
      exact .hands ⟨handle, d, .error e⟩ hphase rfl rfl rfl rfl
  | refused handle d e haction hphase =>
      exact .hands ⟨handle, d, .error e⟩ hphase rfl rfl rfl rfl
  | called state message rest haction hphase =>
      refine .same (waiting_of_phases rfl ?_ rfl) rfl rfl
      simp [inFlight, hphase]
  | escaped message ending what haction hphase =>
      refine .same (waiting_of_phases rfl ?_ rfl) rfl rfl
      simp [inFlight, hphase]
  | deferred message ending haction hphase => exact hleft hphase .deferred
  | concluded message ending d hd haction hphase => exact hleft hphase d

/-- The observer of resolutions has no part in it. -/
theorem Hands.observed (h : Hands c c') (resolved : List Resolution) :
    Hands c { c' with ledger.resolved := resolved } := by
  cases h with
  | same hwaiting hhanded hpushed => exact .same hwaiting hhanded hpushed
  | pushes push hwaiting hhanded hpushed => exact .pushes push hwaiting hhanded hpushed
  | hands handed hphase hhanded hsettlements hafter hpushed =>
      exact .hands handed hphase hhanded hsettlements hafter hpushed

/-- What is handed over is the oldest that waits. -/
theorem Hands.waiting_cons (h : Hands c c') : c'.ledger.handed = c.ledger.handed ∨
    ∃ handed, c'.ledger.handed = c.ledger.handed ++ [handed] ∧
      c.waiting = handed.pair :: c'.waiting := by
  cases h with
  | same hwaiting hhanded => exact .inl hhanded
  | pushes push hwaiting hhanded => exact .inl hhanded
  | hands handed hphase hhanded hsettlements hafter =>
      refine .inr ⟨handed, hhanded, ?_⟩
      have hnone : c'.inFlight = [] := by
        rw [inFlight, hafter]
        cases handed.result <;> rfl
      rw [waiting, waiting, hnone, hsettlements, inFlight, hphase]
      rfl

theorem InOrder.hands (h : InOrder c) (hhands : Hands c c') : InOrder c' := by
  unfold InOrder at h ⊢
  cases hhands with
  | same hwaiting hhanded hpushed => rw [hwaiting, hhanded, hpushed, h]
  | pushes push hwaiting hhanded hpushed =>
      rw [hwaiting, hhanded, hpushed, ← List.append_assoc, h, List.map_append]
      rfl
  | hands handed hphase hhanded hsettlements hafter hpushed =>
      rcases Hands.waiting_cons (.hands handed hphase hhanded hsettlements hafter hpushed) with
        hsame | ⟨other, hother, hwaiting⟩
      · rw [hhanded] at hsame
        exact absurd hsame (by simp)
      · obtain rfl : other = handed := by
          simpa using hother.symm.trans hhanded
        rw [hwaiting] at h
        rw [hhanded, hpushed, ← h, List.map_append, List.append_assoc]
        rfl

end Shift

/-! ## Draining -/

namespace Workers

/-- The owner calls `poll` again wherever the last one was cut short, and the loop in it
goes round. -/
def turn (i : Nat) : List Work := [.poll i, .tryPop i, .settle i]

/-- As many turns as there are settlements to drain. -/
def turns (i n : Nat) : List Work := (List.replicate n (turn i)).flatten

/-- The Consumer of transport `i` can be polled or is being polled, and its settlements
have come so far. -/
structure Drains (w : Workers) (i : Nat) (handed pending : List (Nat × Disposition)) (c : Consumer)
    (t : InMemoryTransport) : Prop where
  consumer : w.consumers i = some c
  transport : w.system.transports[i]? = some t
  attached : c.attached = true
  phase : c.phase = .idle ∨ c.phase = .draining
  idle : t.idle = true
  handed : c.ledger.handed.map Handed.pair = handed
  pending : c.settlements.pending = pending

section Drain

variable {w : Workers} {i : Nat} {c c' : Consumer} {t t' : InMemoryTransport}

theorem observed_self (t : InMemoryTransport) : observed t t = [] :=
  if_neg fun hboth => by simp [hboth.1] at hboth

/-- A piece of work that writes one Consumer, and what the observer adds. -/
theorem step_of_act {a : Work} {s : System} (ht : w.system.transports[i]? = some t)
    (hact : w.act a = w.put s i c') (ht' : s.transports[i]? = some t') :
    (w.step a).system = s ∧ (w.step a).consumers i =
      some { c' with ledger.resolved := c'.ledger.resolved ++ observed t t' } := by
  refine ⟨by simp only [step, hact, put_system], ?_⟩
  simp only [step, hact, put_consumers_self, Option.map_some, observe, ht, put_system, ht']

theorem poll_run (hc : w.consumers i = some c) (ht : w.system.transports[i]? = some t)
    (hattached : c.attached = true) (hphase : c.phase = .idle ∨ c.phase = .draining)
    (hidle : t.idle = true) :
    (w.step (.poll i)).system = w.system ∧
      (w.step (.poll i)).consumers i = some { c with phase := .draining } := by
  have hact : w.act (.poll i) = w.put w.system i { c with phase := .draining } := by
    simp only [act]
    rw [byConsumer_eq hc ht]
    rcases hphase with hphase | hphase
    · rw [if_pos (by simp [hphase, hidle]), hattached]
      rfl
    · rw [if_neg (by simp [hphase]), put]
      have hsame : ({ c with phase := .draining } : Consumer) = c := by rw [← hphase]
      rw [hsame, Function.update_eq_self_iff.mpr hc.symm]
  have hstep := step_of_act ht hact ht
  rw [observed_self, List.append_nil] at hstep
  exact hstep

theorem tryPop_run (hc : w.consumers i = some c) (ht : w.system.transports[i]? = some t)
    (hphase : c.phase = .draining) {handle : Nat} {d : Disposition}
    {rest : List (Nat × Disposition)} (hpending : c.settlements.pending = (handle, d) :: rest) :
    (w.step (.tryPop i)).system = w.system ∧ (w.step (.tryPop i)).consumers i =
      some { c with settlements := ⟨rest⟩, phase := .settling handle d } := by
  have hact : w.act (.tryPop i) =
      w.put w.system i { c with settlements := ⟨rest⟩, phase := .settling handle d } := by
    simp only [act]
    rw [byConsumer_eq hc ht, if_pos (by simp [hphase])]
    simp only [tryPop, SettlementQueue.tryPop, hpending]
  have hstep := step_of_act ht hact ht
  rw [observed_self, List.append_nil] at hstep
  exact hstep

/-- Whether `settle` returns or throws. -/
theorem settle_run (hc : w.consumers i = some c) (ht : w.system.transports[i]? = some t)
    (hidle : t.idle = true) {handle : Nat} {d : Disposition}
    (hphase : c.phase = .settling handle d) {handed : List (Nat × Disposition)}
    (hhanded : c.ledger.handed.map Handed.pair = handed) (hattached : c.attached = true) :
    ∃ c' t', (w.step (.settle i)).Drains i (handed ++ [(handle, d)]) c.settlements.pending c' t' := by
  have hcallable : t.callable = true := by
    simp only [InMemoryTransport.idle, Bool.and_eq_true] at hidle
    exact hidle.1
  have hcall := System.call_of_may (InMemoryTransport.settle handle d) ht hcallable
  obtain ⟨hlt, -⟩ := List.getElem?_eq_some_iff.mp ht
  have ht' : (w.system.step (.settle i handle d)).transports[i]? =
      some (InMemoryTransport.settle handle d ⟨w.system.broker, t, i⟩).2.self := by
    rw [System.step, hcall]
    exact List.getElem?_set_self hlt
  have hidle' : (InMemoryTransport.settle handle d ⟨w.system.broker, t, i⟩).2.self.idle = true := by
    rw [settle_idle, hidle]
  have hact : ∀ c' : Consumer, w.act (.settle i) = w.put (w.system.step (.settle i handle d)) i c' →
      c'.attached = c.attached → (c'.phase = .idle ∨ c'.phase = .draining) →
      c'.settlements = c.settlements →
      c'.ledger.handed.map Handed.pair = c.ledger.handed.map Handed.pair ++ [(handle, d)] →
      ∃ c' t', (w.step (.settle i)).Drains i (handed ++ [(handle, d)]) c.settlements.pending
        c' t' := by
    intro c' hact hattached' hphase' hsettlements hhanded'
    obtain ⟨hsystem, hconsumer⟩ := step_of_act ht hact ht'
    refine ⟨_, _, hconsumer, hsystem ▸ ht', hattached'.trans hattached, hphase', hidle', ?_, ?_⟩
    · rw [← hhanded]
      exact hhanded'
    · rw [← hsettlements]
  cases hresult : (InMemoryTransport.settle handle d ⟨w.system.broker, t, i⟩).1 with
  | ok =>
      refine hact { (c.handed handle d (.ok ())).countSettled d with phase := .draining } ?_ ?_
        (.inr rfl) ?_ ?_
      · simp only [act]
        rw [byConsumer_eq hc ht, if_pos hcallable]
        simp only [settle, hphase, hresult]
      · cases d <;> rfl
      · cases d <;> rfl
      · cases d <;> exact List.map_append
  | error e =>
      refine hact { c.handed handle d (.error e) with phase := .idle } ?_ rfl (.inl rfl) rfl
        List.map_append
      simp only [act]
      rw [byConsumer_eq hc ht, if_pos hcallable]
      simp only [settle, hphase, hresult]

/-- One turn hands over the oldest pair and leaves the others pending. -/
theorem Drains.turn {handed rest : List (Nat × Disposition)} {pair : Nat × Disposition}
    (h : w.Drains i handed (pair :: rest) c t) :
    ∃ c' t', (machine.runFrom w (turn i)).Drains i (handed ++ [pair]) rest c' t' := by
  obtain ⟨handle, d⟩ := pair
  obtain ⟨hpolled, hc⟩ := poll_run h.consumer h.transport h.attached h.phase h.idle
  have ht : (w.step (.poll i)).system.transports[i]? = some t := hpolled ▸ h.transport
  obtain ⟨hpopped, hc'⟩ := tryPop_run hc ht rfl h.pending
  exact settle_run hc' (hpopped ▸ ht) h.idle rfl h.handed h.attached

/-- The turns hand over everything that is pending, in order, however many of the
`settle` calls throw. -/
theorem Drains.turns {handed pending : List (Nat × Disposition)} (h : w.Drains i handed pending c t) :
    ∃ c' t', (machine.runFrom w (turns i pending.length)).Drains i (handed ++ pending) [] c' t' := by
  induction pending generalizing w handed c t with
  | nil =>
      rw [List.append_nil]
      exact ⟨c, t, h⟩
  | cons pair rest ih =>
      obtain ⟨c', t', hnext⟩ := h.turn
      have hrest := ih hnext
      rw [List.append_assoc, ← Machine.runFrom_append] at hrest
      exact hrest

end Drain

end Workers

/-! ## Pushed once -/

open Workers (observed performedBetween)

/-- The resolutions of one delivery. -/
def resolutionsOf (c : Consumer) (delivery : Nat) : List Resolution :=
  c.ledger.resolved.filter (·.delivery == delivery)

/-- No `settle` has thrown, and the delivery each settlement was pushed for has been
resolved once, as pushed, if the settlement was handed over, and not yet otherwise. -/
structure SettledOnce (c : Consumer) : Prop where
  returned : ∀ h ∈ c.ledger.handed, h.result = .ok ()
  once : ∀ n p, c.ledger.pushed[n]? = some p → c.resolutionsOf p.delivery =
    if n < c.ledger.handed.length then [⟨p.delivery, some p.disposition⟩] else []

/-- A settlement is pushed for a delivery that is outstanding and has none waiting, its
handler defers, and the transport is not closed before the settlement is drained. -/
def PushesOnce (c : Consumer) (t : InMemoryTransport) : Work → Prop
  | .push _ handle d => d ≠ .deferred ∧ (t.outstanding[handle]?).isSome = true ∧
      ∀ pair ∈ c.waiting, pair.1 ≠ handle
  | .handlerEnds _ ending => ∀ message ∈ t.handling.toList,
      (∃ pair ∈ c.waiting, pair.1 = message.sequence) → Concludes c message ending = .ok .deferred
  | .call (.close _) => c.waiting = []
  | _ => True

instance (c : Consumer) (t : InMemoryTransport) : ∀ a : Work, Decidable (c.PushesOnce t a)
  | .push _ handle d => inferInstanceAs (Decidable (d ≠ .deferred ∧
      (t.outstanding[handle]?).isSome = true ∧ ∀ pair ∈ c.waiting, pair.1 ≠ handle))
  | .handlerEnds _ ending => inferInstanceAs (Decidable (∀ message ∈ t.handling.toList,
      (∃ pair ∈ c.waiting, pair.1 = message.sequence) →
        decision inMemoryCapabilities (c.configured.handlers ending)
          ⟨message.body, message.redelivered, message.sequence⟩ = .ok .deferred))
  | .call (.close _) => inferInstanceAs (Decidable (c.waiting = []))
  | .call .create | .call (.connect _) | .call (.destroy _) | .call (.ensureTopic ..)
  | .call (.ensureTopicSource _) | .call (.send ..) | .call (.subscribe ..)
  | .call (.purgeTopic ..) | .call (.pump _) | .call (.handlerReturns ..) | .call (.settle ..)
  | .construct .. | .attachSettlementQueue _ | .start .. | .startSubscribe _ | .poll _
  | .tryPop _ | .settle _ | .pump _ | .sliceOver _ => .isTrue trivial

/-- Whoever works for a Consumer keeps to that. -/
def Workers.PushesOnce (w : Workers) (a : Work) : Prop :=
  match a.transport.bind w.consumers, a.transport.bind (w.system.transports[·]?) with
  | some c, some t => Consumer.PushesOnce c t a
  | _, _ => True

instance (w : Workers) (a : Work) : Decidable (w.PushesOnce a) := by
  unfold Workers.PushesOnce
  split <;> infer_instance

/-- How the settlements of a Consumer stand in a run in which each is pushed once. -/
structure Tended (c : Consumer) (t : InMemoryTransport) : Prop where
  order : InOrder c
  /-- at most one settlement waits, and it is for the delivery that is outstanding -/
  short : c.waiting.length ≤ 1
  final : ∀ pair ∈ c.waiting, pair.2 ≠ .deferred ∧ (t.outstanding[pair.1]?).isSome = true
  last : ∀ n p, c.ledger.pushed[n]? = some p → c.ledger.handed.length ≤ n →
    p.delivery = t.stats.received
  /-- what was resolved was received before what is outstanding -/
  past : ∀ r ∈ c.ledger.resolved, r.delivery + t.outstanding.size ≤ t.stats.received
  settled : SettledOnce c

section Tended

variable {i : Nat} {c c' : Consumer} {t t' : InMemoryTransport}

theorem InOrder.length (h : InOrder c) :
    c.ledger.handed.length + c.waiting.length = c.ledger.pushed.length := by
  have hlength := congrArg List.length h
  rwa [List.length_append, List.length_map, List.length_map] at hlength

/-- The delivery of a settlement that was handed over is not the one outstanding. -/
theorem Tended.earlier (h : Tended c t) (hsize : t.outstanding.size = 1) {n : Nat} {p : Push}
    (hp : c.ledger.pushed[n]? = some p) (hhanded : n < c.ledger.handed.length) :
    p.delivery < t.stats.received := by
  have honce := h.settled.once n p hp
  rw [if_pos hhanded] at honce
  have hmem : (⟨p.delivery, some p.disposition⟩ : Resolution) ∈ c.resolutionsOf p.delivery := by
    rw [honce]
    exact List.mem_singleton_self _
  have hpast := h.past _ (List.mem_filter.mp hmem).1
  rw [hsize] at hpast
  exact hpast

/-- What is outstanding has not been resolved. -/
theorem Tended.unresolved (h : Tended c t) (hsize : t.outstanding.size = 1) :
    c.resolutionsOf t.stats.received = [] := by
  refine List.filter_eq_nil_iff.mpr fun r hr heq => ?_
  have hpast := h.past r hr
  rw [hsize, eq_of_beq heq] at hpast
  omega

/-- The settlements and what the transport holds are as they were. -/
theorem Tended.same (h : Tended c t) (hwaiting : c'.waiting = c.waiting)
    (hledger : (c'.ledger.handed, c'.ledger.pushed, c'.ledger.resolved) =
      (c.ledger.handed, c.ledger.pushed, c.ledger.resolved))
    (houtstanding : t'.outstanding = t.outstanding)
    (hreceived : t'.stats.received = t.stats.received) : Tended c' t' := by
  simp only [Prod.mk.injEq] at hledger
  obtain ⟨hhanded, hpushed, hresolved⟩ := hledger
  refine ⟨?_, ?_, ?_, ?_, ?_, ?_, ?_⟩
  · rw [InOrder, hwaiting, hhanded, hpushed]
    exact h.order
  · rw [hwaiting]
    exact h.short
  · rw [hwaiting, houtstanding]
    exact h.final
  · rw [hpushed, hhanded, hreceived]
    exact h.last
  · rw [hresolved, houtstanding, hreceived]
    exact h.past
  · rw [hhanded]
    exact h.settled.returned
  · simp only [resolutionsOf]
    rw [hpushed, hhanded, hresolved]
    exact h.settled.once

/-- Nothing waits when nothing is outstanding. -/
theorem Tended.waiting_of_isEmpty (h : Tended c t) (hempty : t.outstanding.isEmpty = true) :
    c.waiting = [] := by
  refine List.eq_nil_iff_forall_not_mem.mpr fun pair hpair => ?_
  have hsome := (h.final pair hpair).2
  rw [getElem?_of_isEmpty hempty] at hsome
  exact absurd hsome Bool.false_ne_true

/-- What an observer sees when nothing was outstanding. -/
theorem observed_of_isEmpty (hempty : t.outstanding.isEmpty = true) : observed t t' = [] :=
  if_neg fun hboth => by simp [hboth.1] at hempty

theorem observed_of_outstanding (h : t'.outstanding = t.outstanding) : observed t t' = [] :=
  if_neg fun hboth => by simp [h, hboth.1] at hboth

theorem observed_resolved {tag : Nat} {message : Held}
    (hmessage : t.outstanding[tag]? = some message) (hempty : t'.outstanding.isEmpty = true) :
    observed t t' = [⟨t.stats.received, performedBetween t.stats t'.stats⟩] :=
  if_pos ⟨isEmpty_of_getElem? hmessage, hempty⟩

theorem performedBetween_performed (stats : Stats) {d : Disposition} (hd : d ≠ .deferred) :
    performedBetween stats (stats.performed d) = some d := by
  cases d with
  | deferred => exact absurd rfl hd
  | _ => simp [performedBetween, Stats.performed]

/-- What was observed is the resolution of what was outstanding. -/
theorem mem_observed {r : Resolution} (h : r ∈ observed t t') :
    t.outstanding.isEmpty = false ∧ r.delivery = t.stats.received := by
  unfold observed at h
  split at h
  · next hboth =>
      rw [List.mem_singleton.mp h]
      exact ⟨hboth.1, rfl⟩
  · exact absurd h (by simp)

/-- Whatever is outstanding leaves while no settlement waits for it. -/
theorem Tended.leaves (h : Tended c t) (htidy : t.Tidy) (hnone : c.waiting = [])
    (hwaiting : c'.waiting = c.waiting)
    (hledger : (c'.ledger.handed, c'.ledger.pushed, c'.ledger.resolved) =
      (c.ledger.handed, c.ledger.pushed, c.ledger.resolved ++ observed t t'))
    (hempty : t'.outstanding.isEmpty = true)
    (hreceived : t'.stats.received = t.stats.received) : Tended c' t' := by
  simp only [Prod.mk.injEq] at hledger
  obtain ⟨hhanded, hpushed, hresolved⟩ := hledger
  have hsize' := size_of_isEmpty hempty
  have hone : t.outstanding.isEmpty = false → t.outstanding.size = 1 := by
    intro hnot
    rcases htidy.unresolved_cases with hyes | ⟨message, hmessage⟩
    · rw [hyes] at hnot
      exact absurd hnot (by simp)
    · exact size_of_lookup htidy hmessage
  have hall : c.ledger.handed.length = c.ledger.pushed.length := by
    rw [← h.order.length, hnone]
    rfl
  have hbefore : ∀ n p, c.ledger.pushed[n]? = some p → n < c.ledger.handed.length := by
    intro n p hp
    rw [hall]
    exact (List.getElem?_eq_some_iff.mp hp).1
  refine ⟨?_, ?_, ?_, ?_, ?_, ?_, ?_⟩
  · rw [InOrder, hwaiting, hhanded, hpushed]
    exact h.order
  · rw [hwaiting]
    exact h.short
  · intro pair hpair
    rw [hwaiting, hnone] at hpair
    exact absurd hpair (by simp)
  · intro n p hp hn
    rw [hpushed] at hp
    rw [hhanded] at hn
    exact absurd (hbefore n p hp) (Nat.not_lt.mpr hn)
  · intro r hr
    rw [hresolved, List.mem_append] at hr
    rw [hsize', hreceived]
    rcases hr with hr | hr
    · exact Nat.le_of_add_right_le (h.past r hr)
    · rw [(mem_observed hr).2]
      exact Nat.le_refl _
  · rw [hhanded]
    exact h.settled.returned
  · intro n p hp
    rw [hpushed] at hp
    rw [hhanded, ← h.settled.once n p hp, resolutionsOf, resolutionsOf, hresolved,
      List.filter_append]
    refine (congrArg _ (List.filter_eq_nil_iff.mpr fun r hr heq => ?_)).trans (List.append_nil _)
    obtain ⟨hnot, hdelivery⟩ := mem_observed hr
    have hearlier := h.earlier (hone hnot) hp (hbefore n p hp)
    rw [← eq_of_beq heq, hdelivery] at hearlier
    exact Nat.lt_irrefl _ hearlier

/-- The settlement that waits is carried out. -/
theorem Tended.hands (h : Tended c t) {handle : Nat} {d : Disposition} (hd : d ≠ .deferred)
    (hsize : t.outstanding.size = 1) (hwaits : c.waiting = [(handle, d)])
    (hwaiting : c'.waiting = [])
    (hledger : (c'.ledger.handed, c'.ledger.pushed, c'.ledger.resolved) =
      (c.ledger.handed ++ [⟨handle, d, .ok ()⟩], c.ledger.pushed,
        c.ledger.resolved ++ [⟨t.stats.received, some d⟩]))
    (hempty : t'.outstanding.isEmpty = true)
    (hreceived : t'.stats.received = t.stats.received) : Tended c' t' := by
  simp only [Prod.mk.injEq] at hledger
  obtain ⟨hhanded, hpushed, hresolved⟩ := hledger
  have hlength : c'.ledger.handed.length = c.ledger.pushed.length := by
    rw [hhanded, ← h.order.length, hwaits]
    exact List.length_append
  have horder : c.ledger.handed.map Handed.pair ++ [(handle, d)] =
      c.ledger.pushed.map Push.pair := by
    rw [← hwaits]
    exact h.order
  refine ⟨?_, ?_, ?_, ?_, ?_, ?_, ?_⟩
  · rw [InOrder, hwaiting, hhanded, hpushed, List.append_nil, ← horder]
    exact List.map_append
  · rw [hwaiting]
    exact Nat.zero_le 1
  · intro pair hpair
    rw [hwaiting] at hpair
    exact absurd hpair (by simp)
  · intro n p hp hn
    rw [hpushed] at hp
    rw [hlength] at hn
    exact absurd (List.getElem?_eq_some_iff.mp hp).1 (Nat.not_lt.mpr hn)
  · intro r hr
    rw [hresolved, List.mem_append, List.mem_singleton] at hr
    rw [size_of_isEmpty hempty, hreceived]
    rcases hr with hr | rfl
    · exact Nat.le_of_add_right_le (h.past r hr)
    · exact Nat.le_refl _
  · intro handed hmem
    rw [hhanded, List.mem_append, List.mem_singleton] at hmem
    rcases hmem with hmem | rfl
    · exact h.settled.returned handed hmem
    · rfl
  · intro n p hp
    rw [hpushed] at hp
    have hlt : n < c'.ledger.handed.length := by
      rw [hlength]
      exact (List.getElem?_eq_some_iff.mp hp).1
    rw [if_pos hlt, resolutionsOf, hresolved, List.filter_append]
    change c.resolutionsOf p.delivery ++ _ = _
    by_cases hearly : n < c.ledger.handed.length
    · -- an earlier settlement, of an earlier delivery
      have hearlier := h.earlier hsize hp hearly
      rw [h.settled.once n p hp, if_pos hearly, List.filter_eq_nil_iff.mpr, List.append_nil]
      intro r hr heq
      rw [List.mem_singleton.mp hr] at heq
      rw [← eq_of_beq heq] at hearlier
      exact Nat.lt_irrefl _ hearlier
    · -- the one that has just been handed over
      have hdelivery := h.last n p hp (Nat.not_lt.mp hearly)
      have hpair : p.pair = (handle, d) := by
        have hget : (c.ledger.pushed.map Push.pair)[n]? = some p.pair := by
          rw [List.getElem?_map, hp, Option.map_some]
        rw [← horder, List.getElem?_append_right
          (by rw [List.length_map]; exact Nat.not_lt.mp hearly)] at hget
        exact List.mem_singleton.mp (List.mem_of_getElem? hget)
      obtain rfl : p.disposition = d := congrArg Prod.snd hpair
      rw [h.settled.once n p hp, if_neg hearly, hdelivery]
      simp

/-- A message is taken while nothing is outstanding. -/
theorem Tended.takes (h : Tended c t) (hempty : t.outstanding.isEmpty = true) (message : Held)
    (hwaiting : c'.waiting = c.waiting) (hledger : c'.ledger = c.ledger) :
    Tended c' (t.taking message) := by
  have hnone := h.waiting_of_isEmpty hempty
  have hlength := h.order.length
  rw [hnone, List.length_nil, Nat.add_zero] at hlength
  refine ⟨?_, ?_, ?_, ?_, ?_, ?_, ?_⟩
  · rw [InOrder, hwaiting, hledger]
    exact h.order
  · rw [hwaiting]
    exact h.short
  · intro pair hpair
    rw [hwaiting, hnone] at hpair
    exact absurd hpair (by simp)
  · intro n p hp hn
    rw [hledger] at hp hn
    exact absurd (List.getElem?_eq_some_iff.mp hp).1 (Nat.not_lt.mpr (hlength ▸ hn))
  · intro r hr
    rw [hledger] at hr
    have hpast := h.past r hr
    rw [size_of_isEmpty hempty] at hpast
    rw [size_taking hempty]
    exact Nat.succ_le_succ hpast
  · rw [hledger]
    exact h.settled.returned
  · simp only [resolutionsOf]
    rw [hledger]
    exact h.settled.once

/-- What waits is for the one delivery that is outstanding. -/
theorem Tended.sole (h : Tended c t) (htidy : t.Tidy) {tag : Nat} {message : Held}
    (hmessage : t.outstanding[tag]? = some message) {pair : Nat × Disposition}
    (hpair : pair ∈ c.waiting) : pair.1 = tag := by
  obtain ⟨other, hother⟩ := Option.isSome_iff_exists.mp (h.final pair hpair).2
  have hlist := (htidy.sole tag message hmessage).1.symm.trans (htidy.sole pair.1 other hother).1
  exact (congrArg Prod.fst (List.singleton_injective hlist)).symm

/-- A settlement is pushed for the delivery that is outstanding. -/
theorem Tended.pushes (h : Tended c t) (htidy : t.Tidy) {handle : Nat} {d : Disposition}
    (hpush : PushesOnce c t (.push i handle d)) :
    Tended { c with
      settlements := c.settlements.push handle d
      ledger.pushed := c.ledger.pushed ++ [⟨handle, d, t.stats.received⟩] } t := by
  obtain ⟨hd, hsome, hothers⟩ := hpush
  obtain ⟨message, hmessage⟩ := Option.isSome_iff_exists.mp hsome
  have hnone : c.waiting = [] := List.eq_nil_iff_forall_not_mem.mpr fun pair hpair =>
    hothers pair hpair (h.sole htidy hmessage hpair)
  have hlength := h.order.length
  rw [hnone, List.length_nil, Nat.add_zero] at hlength
  have hwaiting : c.waiting ++ [(handle, d)] = [(handle, d)] := by rw [hnone, List.nil_append]
  have horder : InOrder { c with
      settlements := c.settlements.push handle d
      ledger.pushed := c.ledger.pushed ++ [⟨handle, d, t.stats.received⟩] } :=
    h.order.hands (.pushes ⟨handle, d, t.stats.received⟩ (List.append_assoc _ _ _).symm rfl rfl)
  have hafter : waiting { c with
      settlements := c.settlements.push handle d
      ledger.pushed := c.ledger.pushed ++ [⟨handle, d, t.stats.received⟩] } = [(handle, d)] :=
    (List.append_assoc _ _ _).symm.trans hwaiting
  refine ⟨horder, ?_, ?_, ?_, h.past, h.settled.returned, ?_⟩
  · rw [hafter]
    exact Nat.le_refl 1
  · intro pair hpair
    rw [hafter] at hpair
    rw [List.mem_singleton.mp hpair]
    exact ⟨hd, hsome⟩
  · intro n p hp hn
    rw [List.getElem?_append_right (hlength ▸ hn)] at hp
    rw [List.mem_singleton.mp (List.mem_of_getElem? hp)]
  · intro n p hp
    by_cases hearly : n < c.ledger.pushed.length
    · rw [List.getElem?_append_left hearly] at hp
      exact h.settled.once n p hp
    · rw [List.getElem?_append_right (Nat.not_lt.mp hearly)] at hp
      rw [List.mem_singleton.mp (List.mem_of_getElem? hp), if_neg (hlength ▸ hearly)]
      exact h.unresolved (size_of_lookup htidy hmessage)

/-- The observer adds nothing while the transport holds what it held. -/
theorem Tended.steady (h : Tended c t) (hwaiting : c'.waiting = c.waiting)
    (hledger : (c'.ledger.handed, c'.ledger.pushed, c'.ledger.resolved) =
      (c.ledger.handed, c.ledger.pushed, c.ledger.resolved))
    (houtstanding : t'.outstanding = t.outstanding)
    (hreceived : t'.stats.received = t.stats.received) :
    Tended { c' with ledger.resolved := c'.ledger.resolved ++ observed t t' } t' := by
  rw [observed_of_outstanding houtstanding, List.append_nil]
  exact h.same hwaiting hledger houtstanding hreceived

/-- What has been popped is all that waits. -/
theorem Tended.popped (h : Tended c t) {handle : Nat} {d : Disposition}
    (hphase : c.phase = .settling handle d) :
    c.waiting = [(handle, d)] ∧ c.settlements.pending = [] := by
  have hshort := h.short
  rw [waiting, inFlight, hphase] at hshort ⊢
  have hpending : c.settlements.pending = [] :=
    List.length_eq_zero_iff.mp (Nat.le_zero.mp (Nat.le_of_succ_le_succ hshort))
  rw [hpending]
  exact ⟨rfl, rfl⟩

/-- A `settle` that returns has carried out the settlement that was popped. -/
theorem Tended.settles (h : Tended c t) (htidy : t.Tidy) {handle : Nat} {d : Disposition}
    {message : Held} (hd : d ≠ .deferred) (hphase : c.phase = .settling handle d)
    (hmessage : t.outstanding[handle]? = some message) :
    let c' : Consumer := { (c.handed handle d (.ok ())).count d with phase := .draining }
    let t' : InMemoryTransport :=
      { t with outstanding := t.outstanding.erase handle }.counted (.ok ()) d
    Tended { c' with ledger.resolved := c'.ledger.resolved ++ observed t t' } t' := by
  obtain ⟨hwaits, hpending⟩ := h.popped hphase
  refine h.hands hd (size_of_lookup htidy hmessage) hwaits ?_ ?_ ?_ ?_
  · exact congrArg SettlementQueue.pending (count_settlements d) |>.trans hpending
  · have hempty := htidy.isEmpty_erase hmessage
    rw [observed_resolved hmessage ((congrArg _ (counted_outstanding _ _ _)).trans hempty)]
    simp only [count_ledger, counted, performedBetween_performed t.stats hd, handed]
  · rw [counted_outstanding]
    exact htidy.isEmpty_erase hmessage
  · cases d <;> rfl

/-- No settlement waits for a delivery that its handler does not defer. -/
theorem Tended.waiting_of_concludes (h : Tended c t) (htidy : t.Tidy) {message : Held}
    {ending : HandlerEnd} {d : Disposition} (hd : d ≠ .deferred)
    (hmessage : t.handling = some message)
    (hheld : t.outstanding[message.sequence]? = some message)
    (hdecision : Concludes c message ending = .ok d)
    (hpushes : PushesOnce c t (.handlerEnds i ending)) : c.waiting = [] := by
  refine List.eq_nil_iff_forall_not_mem.mpr fun pair hpair => hd ?_
  have hdeferred := hpushes message (by rw [hmessage]; exact List.mem_singleton_self _)
    ⟨pair, hpair, h.sole htidy hheld hpair⟩
  exact Except.ok.inj (hdecision.symm.trans hdeferred)

end Tended

namespace Workers

/-- Nothing has been pushed for a Consumer that has just been constructed. -/
theorem Constructs.tended {w : Workers} {i : Nat} {a : Work} {c : Consumer}
    {t : InMemoryTransport} (h : w.Constructs i a c t) : Tended c t := by
  rw [h.fresh]
  exact ⟨rfl, Nat.zero_le 1, fun _ hpair => absurd hpair (List.not_mem_nil),
    fun _ _ hp => absurd hp (by simp), fun _ hr => absurd hr (List.not_mem_nil),
    fun _ hmem => absurd hmem (List.not_mem_nil), fun _ _ hp => absurd hp (by simp)⟩

section Shift

variable {w : Workers} {i : Nat} {c : Consumer} {t : InMemoryTransport}

/-- What has been popped can be settled. -/
theorem Staffed.settleable (h : w.Staffed) (ht : w.system.transports[i]? = some t)
    (htended : Tended c t) {handle : Nat} {d : Disposition}
    (hphase : c.phase = .settling handle d) :
    d ≠ .deferred ∧ t.connected = true ∧ (t.outstanding[handle]?).isSome = true := by
  obtain ⟨hwaits, -⟩ := htended.popped hphase
  obtain ⟨hd, hsome⟩ := htended.final (handle, d) (by rw [hwaits]; exact List.mem_singleton_self _)
  obtain ⟨message, hmessage⟩ := Option.isSome_iff_exists.mp hsome
  exact ⟨hd, h.attached i t ht (isEmpty_of_getElem? hmessage), hsome⟩

/-- The handler resolves a delivery for which no settlement waits. -/
theorem Staffed.tended_concluded (h : w.Staffed) (hc : w.consumers i = some c)
    (ht : w.system.transports[i]? = some t) (htended : Tended c t) {message : Held}
    {ending : HandlerEnd} {d : Disposition} (hd : d ≠ .deferred) (hphase : c.phase = .handling)
    (hmessage : t.handling = some message) (hdecision : Concludes c message ending = .ok d)
    (hpushes : Consumer.PushesOnce c t (.handlerEnds i ending)) :
    let c' := ({ c with phase := .idle } : Consumer).count d
    let t' := { t with
      handling := none, outstanding := t.outstanding.erase message.sequence }.counted
        ((w.system.broker.log (.resolved i message.sequence)).performs t.topic message d) d
    Tended { c' with ledger.resolved := c'.ledger.resolved ++ observed t t' } t' := by
  have htidy := h.tidy ht
  have hheld := (h.seats.of_lookup hc ht).held message hmessage
  have hnone := htended.waiting_of_concludes htidy hd hmessage hheld hdecision hpushes
  refine htended.leaves htidy hnone ?_ ?_ ?_ ?_
  · refine waiting_of_phases (count_settlements d) ?_ ?_
    · simp [inFlight, hphase]
    · simp [inFlight]
  · simp only [count_ledger]
  · rw [counted_outstanding]
    exact htidy.isEmpty_erase hheld
  · rw [h.performs hc ht hheld]
    cases d <;> rfl

/-- The step lemma, one case for each thing that can happen to a Consumer. -/
theorem Staffed.tended_shift (h : w.Staffed) {a : Work} {b' : Broker} {c' : Consumer}
    {t' : InMemoryTransport} (hc : w.consumers i = some c)
    (ht : w.system.transports[i]? = some t) (hguard : w.PushesOnce a)
    (hshift : Shift w.system.broker b' i a c t c' t') (htended : Tended c t) :
    Tended { c' with ledger.resolved := c'.ledger.resolved ++ observed t t' } t' := by
  have htidy := h.tidy ht
  have hpushes : a.transport = some i → Consumer.PushesOnce c t a := by
    intro htransport
    unfold PushesOnce at hguard
    rw [htransport, Option.bind_some, Option.bind_some, hc, ht] at hguard
    exact hguard
  cases hshift with
  | quiet hbooks hsteady =>
      refine htended.steady hbooks.waiting (by rw [hbooks.ledger]) hsteady.outstanding ?_
      exact congrArg Prod.fst hsteady.tally
  | pushed handle d haction =>
      rw [observed_self, List.append_nil]
      subst haction
      exact htended.pushes htidy (hpushes rfl)
  | closed haction hphase hidle hgone =>
      subst haction
      exact htended.leaves htidy (hpushes rfl) rfl rfl hgone.outstanding (by rw [hgone.stats])
  | subscribed topic options haction hphase =>
      refine htended.steady (waiting_of_phases rfl ?_ rfl) rfl rfl rfl
      simp [inFlight, hphase]
  | popped handle d rest haction hphase hpending =>
      refine htended.steady ?_ rfl rfl rfl
      simp [waiting, inFlight, hphase, hpending]
  | settled handle d message hd haction hphase hconnected hmessage =>
      rw [countSettled_eq_count hd]
      exact htended.settles htidy hd hphase hmessage
  | failed handle d message e hd haction hphase hmessage hfails =>
      rw [h.performs hc ht hmessage] at hfails
      exact absurd hfails (by simp)
  | refused handle d e haction hphase hrefused =>
      obtain ⟨hd, hconnected, hsome⟩ := h.settleable ht htended hphase
      rcases hrefused with heq | hnot | hnone
      · exact absurd heq hd
      · exact absurd (hconnected.symm.trans hnot) (by simp)
      · exact absurd (hnone ▸ hsome) (by simp)
  | called state message rest haction hphase hidle hconnected hhandler hempty =>
      rw [observed_of_isEmpty hempty, List.append_nil]
      exact htended.takes hempty message (waiting_of_phases rfl (by simp [inFlight, hphase]) rfl) rfl
  | escaped message ending what haction hphase =>
      refine htended.steady (waiting_of_phases rfl ?_ rfl) rfl rfl rfl
      simp [inFlight, hphase]
  | deferred message ending haction hphase =>
      refine htended.steady (waiting_of_phases rfl ?_ rfl) rfl rfl rfl
      simp [inFlight, hphase]
  | concluded message ending d hd haction hphase hmessage hdecision =>
      subst haction
      exact h.tended_concluded hc ht htended hd hphase hmessage hdecision (hpushes rfl)

end Shift

/-- In every run the settlements pushed for a Consumer are handed over in that order and
each once: a turn of `poll` hands over the oldest that waits and, returning or throwing,
leaves the others, and enough turns hand over all that is pending.  When each deferred
delivery is pushed once, no `settle` throws and each is resolved once, as pushed. -/
theorem settlements_inOrder (actions : List Work) :
    machine.Always (Each fun _ c _ => InOrder c) actions ∧
      (∀ a i c c', (machine.run actions).consumers i = some c →
        (machine.run (actions ++ [a])).consumers i = some c' → Hands c c') ∧
      (∀ i c t, (machine.run actions).consumers i = some c →
        (machine.run actions).system.transports[i]? = some t →
        c.attached = true → c.phase = .idle → t.idle = true →
        ∃ c' t', (machine.run (actions ++ turns i c.settlements.pending.length)).Drains i
          (c.ledger.pushed.map Push.pair) [] c' t') ∧
      (machine.Guarded PushesOnce actions →
        machine.Always (Each fun _ c _ => SettledOnce c) actions) := by
  have horder : ∀ w : Workers, (w.Each fun _ c _ => InOrder c) → ∀ a,
      (w.step a).Each fun _ c _ => InOrder c :=
    fun w h a => h.step (fun i c t hconstructs => hconstructs.tended.order)
      fun i c t c' t' hc ht hshift hinOrder => hinOrder.hands (hshift.hands.observed _)
  have halways := Machine.AlwaysFrom.of_step (m := machine) actions
    (fun w a h => horder w h a) each_init
  refine ⟨halways, fun a i c c' hc hc' => ?_, fun i c t hc ht hattached hphase hidle => ?_,
    fun hguarded => ?_⟩
  · obtain ⟨t, ht, -⟩ := halways.last i c hc
    obtain ⟨u, t', hu, -, hshift⟩ := step_shift hc ht a
    rw [Machine.run, Machine.runFrom_append] at hc'
    obtain rfl := Option.some.inj (hu.symm.trans hc')
    exact hshift.hands.observed _
  · have hinOrder : InOrder c := halways.last.of_lookup hc ht
    rw [InOrder, waiting, inFlight_of_resting (by rw [hphase]; rfl), List.nil_append] at hinOrder
    rw [← hinOrder, Machine.run, Machine.runFrom_append]
    exact Drains.turns ⟨hc, ht, hattached, .inl hphase, hidle, rfl, rfl⟩
  · refine (Machine.AlwaysFrom.of_guarded (m := machine)
      (I := fun w => w.Staffed ∧ w.Each fun _ => Tended) (fun w a h hguard => ?_)
      ⟨staffed_init, each_init⟩ hguarded).mono fun w h i c hc => ?_
    · exact ⟨h.1.step a, h.2.step (fun i c t hconstructs => hconstructs.tended)
        fun i c t c' t' hc ht hshift htended => h.1.tended_shift hc ht hguard hshift htended⟩
    · obtain ⟨t, ht, htended⟩ := h.2 i c hc
      exact ⟨t, ht, htended.settled⟩

/-- A worker settles a delivery before its handler has returned. -/
def deferredRun : List Work :=
  [.call .create, .call (.connect 0), .construct 0 ⟨false, true⟩, .attachSettlementQueue 0,
    .start 0 "jobs" {} false, .startSubscribe 0,
    .call (.send 0 "jobs" (ByteMessage.ascii "motus:1:job") { durable := false }),
    .poll 0, .tryPop 0, .pump 0, .push 0 1 .ack, .handlerEnds 0 (.returned .deferred),
    .poll 0, .tryPop 0, .settle 0]

/-- It is resolved once, as that worker decided. -/
theorem settlements_inOrder_deferredRun :
    machine.Guarded PushesOnce deferredRun ∧
      machine.Always (Each fun _ c _ => SettledOnce c) deferredRun ∧
      ((machine.run deferredRun).consumers 0).map (·.ledger.resolved) = some [⟨1, some .ack⟩] := by
  have hguarded : machine.Guarded PushesOnce deferredRun := by decide +kernel
  exact ⟨hguarded, (settlements_inOrder deferredRun).2.2.2 hguarded, by decide +kernel⟩

end Workers

end Motus.Consumer
