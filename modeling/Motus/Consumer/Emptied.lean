import Motus.Consumer.Deeds
import Motus.Consumer.Settlements
import Motus.InMemory.Chain

set_option autoImplicit false

/-!
# A Consumer empties its topic

Left alone with its topic, a Consumer with an `onMessage` handler comes to the end of it:
each round of `poll` settles the message at the head or, once for each message, puts it
back for its second attempt.  No message keeps the others waiting forever, whatever the
handler does with it.
-/

namespace Motus.InMemory.Broker

open Motus.Foundation Motus.Transport

/-- Dead-lettering goes up the chain and leaves the topic it starts from. -/
theorem find_deadLetter_self (b : Broker) (source : Topic) (message : Held) :
    (deadLetter source message b).2.find source = b.find source := by
  obtain ⟨calls, r, b', h, hlength⟩ := (enqueuesWithin b.topics.size).deadLetters
    (card_deeper_le b (deadLetterTopic source).length) message
  have hrun : deadLetter source message b = (r, b') := h.eq _ hlength
  rw [hrun]
  refine h.climbs.unvisited source fun hmem => ?_
  obtain ⟨n, hcalls⟩ := h.climbs.calls_eq
  rw [hcalls] at hmem
  rcases List.mem_cons.mp hmem with heq | hafter
  · exact absurd heq (by simp)
  · have hrank := Call.rank_lt_of_mem_after hafter
    simp only [Call.rank] at hrank
    omega

/-- What waits at a topic after one of its messages was settled. -/
theorem waitingAt_performed {b : Broker} (entry : Entry) (topic : Topic) (message : Held)
    {d : Disposition} :
    ((b.log entry).performed topic message d).waitingAt topic =
      if d = .requeue then { message with redelivered := true } :: b.waitingAt topic
      else b.waitingAt topic := by
  cases d with
  | requeue => exact (putsBack_pushFront b entry topic message).self
  | reject =>
      rw [performed, waitingAt, find_deadLetter_self]
      rfl
  | ack => rfl
  | deferred => rfl

end Motus.InMemory.Broker

namespace Motus.InMemory

open Motus.Foundation Motus.Transport InMemoryTransport

section PumpTurn

variable (i : Nat) {b : Broker} {t : InMemoryTransport} (hconnected : t.connected = true)
  (hhandler : t.handler = true) (hempty : t.outstanding.isEmpty = true)
include hconnected hhandler hempty

/-- A transport that is ready takes what waits at the head of its topic. -/
theorem pumpTurn_takes {state : TopicState} {message : Held} {rest : List Held}
    (hfind : b.find t.topic = some state) (hmessages : state.messages = message :: rest) :
    pumpTurn ⟨b, t, i⟩ =
      (.ok (.calling ⟨message.body, message.redelivered, message.sequence⟩),
        ⟨b.handedOut i t.topic state message rest, t.taking message, i⟩) := by
  simp only [pumpTurn, Exec.get_bind]
  rw [if_neg (by simp [hconnected]), if_neg (by simp [hhandler]), if_neg (by simp [hempty]),
    Exec.bind_apply, onBroker_apply]
  simp only [Broker.take, Exec.get_bind, hfind, hmessages]
  rfl

/-- When nothing waits there, it goes to sleep. -/
theorem pumpTurn_sleeps (hnone : b.waitingAt t.topic = []) :
    pumpTurn ⟨b, t, i⟩ = (.ok .slept, ⟨b, t, i⟩) := by
  simp only [pumpTurn, Exec.get_bind]
  rw [if_neg (by simp [hconnected]), if_neg (by simp [hhandler]), if_neg (by simp [hempty]),
    Exec.bind_apply, onBroker_apply]
  simp only [Broker.take, Exec.get_bind]
  cases hfind : b.find t.topic with
  | none => rfl
  | some state =>
      rw [Broker.waitingAt, hfind, Option.getD_some] at hnone
      simp only [hnone]
      rfl

end PumpTurn

end Motus.InMemory

namespace Motus.Consumer

open Motus.Foundation Motus.Transport Motus.InMemory InMemoryTransport Broker

/-- How many more deliveries a message can take. -/
def attemptsLeft (m : Held) : Nat := if m.redelivered then 1 else 2

/-- One `poll` that is given a message, or finds none in its slice: its settlement queue is
looked at, one turn of `pump` is made, and the handler leaves or the slice is over. -/
def round (i : Nat) (ending : HandlerEnd) : List Work :=
  [.poll i, .tryPop i, .pump i, .handlerEnds i ending, .sliceOver i]

/-- One round after another, each with the ending that the handler has in it. -/
def rounds (i : Nat) (endings : List HandlerEnd) : List Work := endings.flatMap (round i)

/-- The Consumer has an `onMessage` handler, is between two calls of `poll` and has nothing
left to settle; its transport is subscribed. -/
def serves (c : Consumer) (t : InMemoryTransport) : Bool :=
  c.configured == ⟨true, false⟩ && c.phase == .idle && c.settlements.pending.isEmpty &&
    t.idle && t.connected && t.handler && t.outstanding.isEmpty

namespace Workers

/-- The Consumer of transport `i` is ready for what waits at its topic. -/
structure Serving (w : Workers) (i : Nat) (topic : Topic) (messages : List Held) (c : Consumer)
    (t : InMemoryTransport) : Prop where
  staffed : w.Staffed
  consumer : w.consumers i = some c
  transport : w.system.transports[i]? = some t
  serves : serves c t = true
  subscribed : t.topic = topic
  waits : w.system.broker.waitingAt topic = messages

section Round

variable {w : Workers} {i : Nat} {c : Consumer} {t : InMemoryTransport} {topic : Topic}

/-- Work that its Consumer does not take up. -/
theorem step_untaken {a : Work} (hc : w.consumers i = some c)
    (ht : w.system.transports[i]? = some t) (hact : w.act a = w) :
    (w.step a).system = w.system ∧ (w.step a).consumers i = some c := by
  refine ⟨by rw [step, hact], ?_⟩
  simp only [step, hact, hc, Option.map_some, observe, ht, observed_self, List.append_nil]

/-- `poll` comes to its `pump` when nothing is left to settle. -/
theorem reaches_pump (hc : w.consumers i = some c) (ht : w.system.transports[i]? = some t)
    (hphase : c.phase = .idle) (hidle : t.idle = true) (hpending : c.settlements.pending = []) :
    (machine.runFrom w [.poll i, .tryPop i]).system = w.system ∧
      (machine.runFrom w [.poll i, .tryPop i]).consumers i = some { c with phase := .pumping } := by
  have hpolls : w.act (.poll i) =
      w.put w.system i { c with phase := if c.attached then .draining else .pumping } := by
    simp only [act]
    rw [byConsumer_eq hc ht, if_pos (by simp [hphase, hidle])]
  obtain ⟨hpolled, hc'⟩ := step_of_act ht hpolls ht
  rw [observed_self, List.append_nil] at hc'
  have ht' : (w.step (.poll i)).system.transports[i]? = some t := hpolled ▸ ht
  rcases Bool.eq_false_or_eq_true c.attached with hattached | hattached
  · rw [if_pos hattached] at hc'
    have hpops : (w.step (.poll i)).act (.tryPop i) =
        (w.step (.poll i)).put (w.step (.poll i)).system i { c with phase := .pumping } := by
      simp only [act]
      rw [byConsumer_eq hc' ht', if_pos (by simp)]
      simp only [tryPop, SettlementQueue.tryPop, hpending]
    obtain ⟨hpopped, hc''⟩ := step_of_act ht' hpops ht'
    rw [observed_self, List.append_nil] at hc''
    exact ⟨hpopped.trans hpolled, hc''⟩
  · rw [if_neg (by rw [hattached]; simp)] at hc'
    have hpops : (w.step (.poll i)).act (.tryPop i) = w.step (.poll i) := by
      rw [act, byConsumer_eq hc' ht', if_neg (by simp)]
    obtain ⟨hpopped, hc''⟩ := step_untaken hc' ht' hpops
    exact ⟨hpopped.trans hpolled, hc''⟩

/-- What a piece of work leaves of the Consumer, the observer's notes included. -/
theorem step_own {a : Work} {c' : Consumer} {t' : InMemoryTransport}
    (ht : w.system.transports[i]? = some t) (hc' : (w.act a).consumers i = some c')
    (ht' : (w.act a).system.transports[i]? = some t') : (w.step a).consumers i =
      some { c' with ledger.resolved := c'.ledger.resolved ++ observed t t' } := by
  simp only [step, hc', Option.map_some, observe, ht, ht']

/-- The head of the topic is taken and the lambda of `start` called with it. -/
theorem pump_run (hc : w.consumers i = some c) (ht : w.system.transports[i]? = some t)
    (hphase : c.phase = .pumping) (hidle : t.idle = true) (hconnected : t.connected = true)
    (hhandler : t.handler = true) (hempty : t.outstanding.isEmpty = true) {state : TopicState}
    {message : Held} {rest : List Held} (hfind : w.system.broker.find t.topic = some state)
    (hmessages : state.messages = message :: rest) :
    (w.step (.pump i)).system = ⟨w.system.broker.handedOut i t.topic state message rest,
        w.system.transports.set i (t.taking message)⟩ ∧
      (w.step (.pump i)).consumers i = some { c with phase := .handling } := by
  have hrun := pumpTurn_takes i hconnected hhandler hempty hfind hmessages
  have hstep : w.system.step (.pump i) = _ := System.call_of_may pumpTurn ht hidle
  rw [hrun] at hstep
  have hact : (w.act (.pump i)).system = w.system.step (.pump i) ∧
      (w.act (.pump i)).consumers i = some { c with phase := .handling } := by
    rw [act, byConsumer_eq hc ht, if_pos (by simp [hphase, hidle])]
    unfold pump
    rw [hrun]
    dsimp only
    split
    · exact ⟨rfl, Function.update_self _ _ _⟩
    · exact ⟨rfl, Function.update_self _ _ _⟩
  have ht' : (w.act (.pump i)).system.transports[i]? = some (t.taking message) := by
    rw [hact.1, hstep]
    exact System.lookup_set_self ht _
  have hown := step_own ht hact.2 ht'
  rw [observed_of_isEmpty hempty, List.append_nil] at hown
  exact ⟨hact.1.trans hstep, hown⟩

/-- Nothing waits at the topic, and `pump` goes round again. -/
theorem pump_sleeps (hc : w.consumers i = some c) (ht : w.system.transports[i]? = some t)
    (hphase : c.phase = .pumping) (hidle : t.idle = true) (hconnected : t.connected = true)
    (hhandler : t.handler = true) (hempty : t.outstanding.isEmpty = true)
    (hnone : w.system.broker.waitingAt t.topic = []) :
    (w.step (.pump i)).system = w.system ∧ (w.step (.pump i)).consumers i = some c := by
  have hrun := pumpTurn_sleeps i hconnected hhandler hempty hnone
  have hstep : w.system.step (.pump i) = _ := System.call_of_may pumpTurn ht hidle
  rw [hrun] at hstep
  have hsame : w.system.step (.pump i) = w.system := by
    obtain ⟨hlt, hget⟩ := List.getElem?_eq_some_iff.mp ht
    rw [hstep, ← hget, List.set_getElem_self]
  have hact : w.act (.pump i) = w.put w.system i c := by
    rw [act, byConsumer_eq hc ht, if_pos (by simp [hphase, hidle])]
    unfold pump
    rw [hrun, hsame]
  have hown := step_of_act ht hact ht
  rw [observed_self, List.append_nil] at hown
  exact hown

/-- The handler leaves, and what it was called with is settled. -/
theorem handlerEnds_run (hc : w.consumers i = some c) (ht : w.system.transports[i]? = some t)
    (hphase : c.phase = .handling) (hcallable : t.callable = true) {message : Held}
    (hmessage : t.handling = some message) {ending : HandlerEnd} {d : Disposition}
    (hd : d ≠ .deferred) (hconcludes : Concludes c message ending = .ok d) :
    ∃ resolved r, (w.step (.handlerEnds i ending)).system =
        ⟨(w.system.broker.log (.resolved i message.sequence)).performed t.topic message d,
          w.system.transports.set i ({ t with
            handling := none, outstanding := t.outstanding.erase message.sequence }.counted r d)⟩ ∧
      (w.step (.handlerEnds i ending)).consumers i =
        some { ({ c with phase := .idle } : Consumer).count d with ledger.resolved := resolved } ∧
      .concluded t.topic message (calledWith message ending) d ∈
        (w.step (.handlerEnds i ending)).log := by
  have hstep : w.system.step (.handlerReturns i (.returned d)) = _ :=
    System.call_of_may (endPump (.returned d)) ht hcallable
  rw [endPump_run i w.system.broker t hd hmessage] at hstep
  have hact : w.act (.handlerEnds i ending) =
      (w.put (w.system.step (.handlerReturns i (.returned d))) i
        (({ c with phase := .idle } : Consumer).count d)).note
          [.concluded t.topic message (calledWith message ending) d] := by
    rw [act, byConsumer_eq hc ht, if_pos (by simp [hphase, hcallable])]
    unfold handlerEnds
    simp only [hmessage]
    rw [Concludes] at hconcludes
    rw [hconcludes]
    rfl
  have hconsumer : (w.act (.handlerEnds i ending)).consumers i =
      some (({ c with phase := .idle } : Consumer).count d) := by
    rw [hact]
    exact Function.update_self _ _ _
  have htransport : (w.act (.handlerEnds i ending)).system =
      w.system.step (.handlerReturns i (.returned d)) := by
    rw [hact]
    rfl
  have hown := step_own ht hconsumer (by
    rw [htransport, hstep]
    exact System.lookup_set_self ht _)
  refine ⟨_, (w.system.broker.log (.resolved i message.sequence)).performs t.topic message d,
    htransport.trans hstep, hown, ?_⟩
  rw [step, hact]
  exact List.mem_append_right _ (List.mem_singleton_self _)

/-- Work that comes in the wrong phase. -/
theorem handlerEnds_untaken {ending : HandlerEnd} (hc : w.consumers i = some c)
    (ht : w.system.transports[i]? = some t) (hphase : c.phase ≠ .handling) :
    w.act (.handlerEnds i ending) = w := by
  rw [act, byConsumer_eq hc ht, if_neg (by simp [hphase])]

theorem sliceOver_untaken (hc : w.consumers i = some c) (ht : w.system.transports[i]? = some t)
    (hphase : c.phase ≠ .pumping) : w.act (.sliceOver i) = w := by
  rw [act, byConsumer_eq hc ht, if_neg (by simp [hphase])]

/-- The slice is over, and `poll` returns. -/
theorem sliceOver_run (hc : w.consumers i = some c) (ht : w.system.transports[i]? = some t)
    (hphase : c.phase = .pumping) : (w.step (.sliceOver i)).system = w.system ∧
      (w.step (.sliceOver i)).consumers i = some { c with phase := .idle } := by
  have hact : w.act (.sliceOver i) = w.put w.system i { c with phase := .idle } := by
    rw [act, byConsumer_eq hc ht, if_pos (by simp [hphase])]
  have hown := step_of_act ht hact ht
  rw [observed_self, List.append_nil] at hown
  exact hown

theorem Staffed.runFrom (h : w.Staffed) (works : List Work) :
    (machine.runFrom w works).Staffed := by
  induction works generalizing w with
  | nil => exact h
  | cons a rest ih => exact ih (h.step a)

/-- What is written down stays written. -/
theorem log_subset_runFrom (w : Workers) (works : List Work) :
    w.log ⊆ (machine.runFrom w works).log := by
  induction works generalizing w with
  | nil => exact List.Subset.refl _
  | cons a rest ih =>
      obtain ⟨calls, notes, -, -, hlog⟩ := w.step_deed a
      refine List.Subset.trans ?_ (ih (w.step a))
      rw [hlog]
      exact List.subset_append_left _ _

theorem Serving.ready {messages : List Held} (h : w.Serving i topic messages c t) :
    c.configured = ⟨true, false⟩ ∧ c.phase = .idle ∧ c.settlements.pending = [] ∧
      t.idle = true ∧ t.connected = true ∧ t.handler = true ∧ t.outstanding.isEmpty = true := by
  simpa [Consumer.serves, and_assoc] using h.serves

/-- When nothing waits, a round changes nothing. -/
theorem Serving.round_nil (h : w.Serving i topic [] c t) (ending : HandlerEnd) :
    (machine.runFrom w (round i ending)).Serving i topic [] c t := by
  obtain ⟨hconfigured, hphase, hpending, hidle, hconnected, hhandler, hempty⟩ := h.ready
  obtain ⟨hsystem, hc⟩ := reaches_pump h.consumer h.transport hphase hidle hpending
  generalize hmiddle : machine.runFrom w [.poll i, .tryPop i] = w₂ at hsystem hc
  have ht : w₂.system.transports[i]? = some t := hsystem ▸ h.transport
  have hnone : w₂.system.broker.waitingAt t.topic = [] := by
    rw [hsystem, h.subscribed]
    exact h.waits
  obtain ⟨hslept, hc₃⟩ := pump_sleeps hc ht rfl hidle hconnected hhandler hempty hnone
  have ht₃ : (w₂.step (.pump i)).system.transports[i]? = some t := hslept ▸ ht
  obtain ⟨hleft, hc₄⟩ := step_untaken hc₃ ht₃
    (handlerEnds_untaken hc₃ ht₃ (by simp))
  obtain ⟨hover, hc₅⟩ := sliceOver_run hc₄ (hleft ▸ ht₃) rfl
  have hrun : machine.runFrom w (round i ending) =
      ((w₂.step (.pump i)).step (.handlerEnds i ending)).step (.sliceOver i) := by
    rw [← hmiddle]
    rfl
  have hsame : (machine.runFrom w (round i ending)).system = w.system := by
    rw [hrun, hover, hleft, hslept, hsystem]
  have hback : ({ c with phase := .idle } : Consumer) = c := by rw [← hphase]
  refine ⟨h.staffed.runFrom _, ?_, hsame ▸ h.transport, h.serves, h.subscribed, hsame ▸ h.waits⟩
  rw [hrun, hc₅]
  exact congrArg some hback

/-- What one round makes of the message at the head of the topic: it is settled for good,
or requeued, which happens to a message once. -/
structure Settles (w' : Workers) (topic : Topic) (message : Held) (c c' : Consumer)
    (d : Disposition) : Prop where
  final : d ≠ .deferred
  once : d = .requeue → message.redelivered = false
  counted : (c'.acked, c'.rejected, c'.requeued) =
    ((c.count d).acked, (c.count d).rejected, (c.count d).requeued)
  noted : ∃ called, .concluded topic message called d ∈ w'.log

/-- The message at the head is taken, and the lambda of `start` called with it. -/
theorem Serving.takes {message : Held} {rest : List Held}
    (h : w.Serving i topic (message :: rest) c t) : ∃ state, state.messages = message :: rest ∧
      (machine.runFrom w [.poll i, .tryPop i, .pump i]).system =
        ⟨w.system.broker.handedOut i t.topic state message rest,
          w.system.transports.set i (t.taking message)⟩ ∧
      (machine.runFrom w [.poll i, .tryPop i, .pump i]).consumers i =
        some { c with phase := .handling } := by
  obtain ⟨-, hphase, hpending, hidle, hconnected, hhandler, hempty⟩ := h.ready
  obtain ⟨hsystem, hc⟩ := reaches_pump h.consumer h.transport hphase hidle hpending
  have hpumps : machine.runFrom w [.poll i, .tryPop i, .pump i] =
      (machine.runFrom w [.poll i, .tryPop i]).step (.pump i) := rfl
  rw [hpumps]
  generalize machine.runFrom w [.poll i, .tryPop i] = w₂ at hsystem hc
  have ht : w₂.system.transports[i]? = some t := hsystem ▸ h.transport
  have hwaits := h.waits
  rw [← hsystem, ← h.subscribed, Broker.waitingAt] at hwaits
  rw [← hsystem]
  cases hfind : w₂.system.broker.find t.topic with
  | none =>
      rw [hfind] at hwaits
      exact absurd hwaits (by simp)
  | some state =>
      rw [hfind, Option.getD_some] at hwaits
      exact ⟨state, hwaits, pump_run hc ht rfl hidle hconnected hhandler hempty hfind hwaits⟩

/-- What the lambda of `start` decides about a message. -/
theorem concludes_once (hconfigured : c.configured = ⟨true, false⟩) {ending : HandlerEnd}
    (hstd : ∀ what, ending ≠ .foreign what) (message : Held) :
    ∃ d, Concludes c message ending = .ok d ∧ d ≠ .deferred ∧
      (d = .requeue → message.redelivered = false) := by
  have hplain : isPlain "" (.handlerEnds 0 ending) = true := by
    cases ending with
    | foreign what => exact absurd rfl (hstd what)
    | _ => rfl
  obtain ⟨d, hconcludes, hd⟩ := concludes_final hconfigured hplain message
  refine ⟨d, hconcludes, hd, ?_⟩
  rintro rfl
  cases hbody : ByteMessage.deserialize message.body with
  | error e => exact absurd ((concludes_error hbody).symm.trans hconcludes) (by simp)
  | ok decoded =>
      obtain ⟨d, hconcludes', hends⟩ := concludes_ok hconfigured hbody hplain
      obtain rfl := Except.ok.inj (hconcludes'.symm.trans hconcludes)
      exact (ends_requeue hends).1

/-- A Consumer is ready again when its transport holds nothing any more. -/
theorem serves_again {c' : Consumer} {t' : InMemoryTransport} (hserves : serves c t = true)
    (hempty : t'.outstanding.isEmpty = true)
    (hc' : c'.configured = c.configured ∧ c'.phase = .idle ∧ c'.settlements = c.settlements)
    (ht' : t'.callable = t.callable ∧ t'.handling = none ∧ t'.connected = t.connected ∧
      t'.handler = t.handler) : serves c' t' = true := by
  simp only [Consumer.serves, InMemoryTransport.idle, Bool.and_eq_true] at hserves ⊢
  simp [hc', ht', hempty, hserves]

@[simp] theorem counted_callable (t : InMemoryTransport) (r : Except Exn Unit) (d : Disposition) :
    (t.counted r d).callable = t.callable := by
  cases r <;> rfl

/-- The step lemma: a round settles the message at the head of the topic. -/
theorem Serving.round_cons {message : Held} {rest : List Held}
    (h : w.Serving i topic (message :: rest) c t) {ending : HandlerEnd}
    (hstd : ∀ what, ending ≠ .foreign what) :
    ∃ d c' t', Settles (machine.runFrom w (round i ending)) topic message c c' d ∧
      (machine.runFrom w (round i ending)).Serving i topic
        (if d = .requeue then { message with redelivered := true } :: rest else rest) c' t' := by
  obtain ⟨state, hmessages, htaken, hc₃⟩ := h.takes
  have hstaffed₃ := h.staffed.runFrom [.poll i, .tryPop i, .pump i]
  have hrun : machine.runFrom w (round i ending) = ((machine.runFrom w
      [.poll i, .tryPop i, .pump i]).step (.handlerEnds i ending)).step (.sliceOver i) := rfl
  have hstaffed := h.staffed.runFrom (round i ending)
  rw [hrun] at hstaffed ⊢
  generalize machine.runFrom w [.poll i, .tryPop i, .pump i] = w₃ at htaken hc₃ hstaffed₃ hstaffed ⊢
  have ht₃ : w₃.system.transports[i]? = some (t.taking message) := by
    rw [htaken]
    exact System.lookup_set_self h.transport _
  -- the handler leaves, and the slice was not over before
  obtain ⟨hconfigured, -, -, hidle, -⟩ := h.ready
  obtain ⟨d, hconcludes, hd, honce⟩ :=
    concludes_once (c := { c with phase := .handling }) hconfigured hstd message
  have hcallable : t.callable = true := (Bool.and_eq_true_iff.mp hidle).1
  obtain ⟨resolved, r, hsettled, hc₄, hnoted⟩ :=
    handlerEnds_run hc₃ ht₃ rfl hcallable rfl hd hconcludes
  have ht₄ : (w₃.step (.handlerEnds i ending)).system.transports[i]? =
      some ({ t.taking message with
        handling := none
        outstanding := (t.taking message).outstanding.erase message.sequence }.counted r d) := by
    rw [hsettled]
    exact System.lookup_set_self ht₃ _
  obtain ⟨hover, hc₅⟩ := step_untaken hc₄ ht₄ (sliceOver_untaken hc₄ ht₄ (by simp))
  have hheld := (hstaffed₃.seats.of_lookup hc₃ ht₃).held message rfl
  have hempty := (hstaffed₃.tidy ht₃).isEmpty_erase hheld
  refine ⟨d, _, _, ⟨hd, honce, ?_, ?_⟩, hstaffed, hc₅, hover ▸ ht₄, ?_, ?_, ?_⟩
  · cases d <;> rfl
  · refine ⟨calledWith message ending, ?_⟩
    rw [← h.subscribed]
    exact log_subset_runFrom (w₃.step (.handlerEnds i ending)) [.sliceOver i] hnoted
  · refine serves_again h.serves ?_ ⟨?_, count_phase d, count_settlements d⟩ ?_
    · rw [counted_outstanding]
      exact hempty
    · cases d <;> rfl
    · exact ⟨counted_callable _ _ _, counted_handling _ _ _, counted_connected _ _ _,
        counted_handler _ _ _⟩
  · rw [counted_topic]
    exact h.subscribed
  · have hrest : w₃.system.broker.waitingAt t.topic = rest := by
      rw [htaken, Broker.handedOut, waitingAt, find_log, find_write_self, Option.getD_some]
    have hself : (t.taking message).topic = t.topic := rfl
    rw [hover, hsettled, ← h.subscribed, hself, waitingAt_performed, hrest]

/-- What has become of the messages that waited at the topic, and of the counters. -/
structure Emptied (w' : Workers) (topic : Topic) (messages : List Held) (c c' : Consumer) :
    Prop where
  waits : w'.system.broker.waitingAt topic = []
  /-- each message is acknowledged or rejected, once -/
  settled : c'.acked + c'.rejected = c.acked + c.rejected + messages.length
  /-- and at most once requeued before that -/
  requeued : c'.requeued ≤ c.requeued + (messages.filter fun m => !m.redelivered).length
  concluded : ∀ m ∈ messages, ∃ message called d, .concluded topic message called d ∈ w'.log ∧
    (d = .ack ∨ d = .reject) ∧ message.sequence = m.sequence ∧ message.body = m.body

/-- One round before the others. -/
theorem Emptied.cons {w' w'' : Workers} {message : Held} {rest : List Held} {c' c'' : Consumer}
    {d : Disposition} (hsettles : Settles w' topic message c c' d) (hlog : w'.log ⊆ w''.log)
    (h : Emptied w'' topic
      (if d = .requeue then { message with redelivered := true } :: rest else rest) c' c'') :
    Emptied w'' topic (message :: rest) c c'' := by
  have hcounted := hsettles.counted
  simp only [Prod.mk.injEq] at hcounted
  obtain ⟨hacked, hrejected, hrequeued⟩ := hcounted
  have hsettled := h.settled
  have hretried := h.requeued
  have hconcluded := h.concluded
  -- a message that was settled for good is not among the others
  have hfinal : d = .ack ∨ d = .reject → ∀ m ∈ message :: rest,
      (m ∈ rest → ∃ message called d, .concluded topic message called d ∈ w''.log ∧
        (d = .ack ∨ d = .reject) ∧ message.sequence = m.sequence ∧ message.body = m.body) →
      ∃ message called d, .concluded topic message called d ∈ w''.log ∧
        (d = .ack ∨ d = .reject) ∧ message.sequence = m.sequence ∧ message.body = m.body := by
    intro hd m hm hothers
    rcases List.mem_cons.mp hm with rfl | hm
    · obtain ⟨called, hnoted⟩ := hsettles.noted
      exact ⟨m, called, d, hlog hnoted, hd, rfl, rfl⟩
    · exact hothers hm
  cases d with
  | deferred => exact absurd rfl hsettles.final
  | requeue =>
      have hfirst := hsettles.once rfl
      rw [if_pos rfl] at hsettled hretried hconcluded
      simp only [Consumer.count] at hacked hrejected hrequeued
      refine ⟨h.waits, ?_, ?_, fun m hm => ?_⟩
      · rw [List.length_cons] at hsettled ⊢
        omega
      · rw [List.filter_cons_of_neg (by simp)] at hretried
        rw [List.filter_cons_of_pos (by simp [hfirst]), List.length_cons]
        omega
      · rcases List.mem_cons.mp hm with rfl | hm
        · exact hconcluded { m with redelivered := true } List.mem_cons_self
        · exact hconcluded m (List.mem_cons_of_mem _ hm)
  | ack =>
      rw [if_neg (by simp)] at hsettled hretried hconcluded
      simp only [Consumer.count] at hacked hrejected hrequeued
      refine ⟨h.waits, ?_, ?_, fun m hm => hfinal (.inl rfl) m hm (hconcluded m)⟩
      · rw [List.length_cons]
        omega
      · have hsublist := ((List.sublist_cons_self message rest).filter
          fun m => !m.redelivered).length_le
        omega
  | reject =>
      rw [if_neg (by simp)] at hsettled hretried hconcluded
      simp only [Consumer.count] at hacked hrejected hrequeued
      refine ⟨h.waits, ?_, ?_, fun m hm => hfinal (.inr rfl) m hm (hconcluded m)⟩
      · rw [List.length_cons]
        omega
      · have hsublist := ((List.sublist_cons_self message rest).filter
          fun m => !m.redelivered).length_le
        omega

theorem attemptsLeft_pos (m : Held) : 0 < attemptsLeft m := by
  unfold attemptsLeft
  split <;> omega

/-- The run lemma. -/
theorem Serving.rounds {messages : List Held} (h : w.Serving i topic messages c t)
    {endings : List HandlerEnd} (hstd : ∀ ending ∈ endings, ∀ what, ending ≠ .foreign what)
    (hlong : (messages.map attemptsLeft).sum ≤ endings.length) :
    ∃ c', (machine.runFrom w (rounds i endings)).consumers i = some c' ∧
      Emptied (machine.runFrom w (rounds i endings)) topic messages c c' := by
  induction endings generalizing w messages c t with
  | nil =>
      cases messages with
      | nil => exact ⟨c, h.consumer, h.waits, rfl, Nat.le_refl _, by simp⟩
      | cons message rest =>
          have hpos := attemptsLeft_pos message
          rw [List.map_cons, List.sum_cons, List.length_nil] at hlong
          omega
  | cons ending rest ih =>
      have hrest : ∀ e ∈ rest, ∀ what, e ≠ .foreign what :=
        fun e he => hstd e (List.mem_cons_of_mem _ he)
      have hsplit : machine.runFrom w (rounds i (ending :: rest)) =
          machine.runFrom (machine.runFrom w (round i ending)) (rounds i rest) := by
        rw [Consumer.rounds, List.flatMap_cons, Machine.runFrom_append]
        rfl
      rw [hsplit]
      cases messages with
      | nil => exact ih (h.round_nil ending) hrest (Nat.zero_le _)
      | cons message others =>
          obtain ⟨d, c', t', hsettles, hnext⟩ := h.round_cons (hstd ending List.mem_cons_self)
          obtain ⟨c'', hc'', hemptied⟩ := ih hnext hrest (by
            have hpos := attemptsLeft_pos message
            rw [List.map_cons, List.sum_cons, List.length_cons] at hlong
            split
            · next hd =>
                have hflagged : attemptsLeft { message with redelivered := true } = 1 := rfl
                have htwo : attemptsLeft message = 2 := by
                  rw [attemptsLeft, hsettles.once hd, if_neg Bool.false_ne_true]
                rw [List.map_cons, List.sum_cons]
                omega
            · omega)
          exact ⟨c'', hc'', hemptied.cons hsettles (log_subset_runFrom _ _)⟩

end Round

/-- A Consumer with an `onMessage` handler that is left alone with its topic empties it,
whatever comes of each call of the handler: it takes no more rounds than there are messages
waiting, twice for those that have not been delivered before, and every one of them is
acknowledged or rejected. -/
theorem consumer_empties_topic (works : List Work) (i : Nat) (endings : List HandlerEnd)
    {c : Consumer} {t : InMemoryTransport} (hc : (machine.run works).consumers i = some c)
    (ht : (machine.run works).system.transports[i]? = some t) (hserves : serves c t = true)
    (hstd : ∀ ending ∈ endings, ∀ what, ending ≠ .foreign what)
    (hlong : (((machine.run works).system.broker.waitingAt t.topic).map attemptsLeft).sum ≤
      endings.length) :
    ∃ c', (machine.run (works ++ rounds i endings)).consumers i = some c' ∧
      Emptied (machine.run (works ++ rounds i endings)) t.topic
        ((machine.run works).system.broker.waitingAt t.topic) c c' := by
  rw [Machine.run, Machine.runFrom_append]
  exact Serving.rounds ⟨(always_staffed works).last, hc, ht, hserves, rfl, rfl⟩ hstd hlong

/-- A message that has been sent back once, and another one behind it. -/
def retriedRun : List Work :=
  [.call .create, .call (.connect 0), .construct 0 ⟨true, false⟩, .start 0 "jobs" {} false,
    .startSubscribe 0,
    .call (.send 0 "jobs" (ByteMessage.ascii "motus:1:a") { durable := false }),
    .call (.send 0 "jobs" (ByteMessage.ascii "motus:1:b") { durable := false })] ++
  round 0 (.transientFailure "busy")

theorem consumer_empties_topic_retriedRun : ∃ c t c',
    (machine.run retriedRun).consumers 0 = some c ∧
      (machine.run retriedRun).system.transports[0]? = some t ∧
      Emptied (machine.run (retriedRun ++ rounds 0 [.transientFailure "still busy",
        .transientFailure "busy", .exception "bad input"])) t.topic
        ((machine.run retriedRun).system.broker.waitingAt t.topic) c c' := by
  have hconsumer : ((machine.run retriedRun).consumers 0).isSome = true := by decide +kernel
  have htransport : ((machine.run retriedRun).system.transports[0]?).isSome = true := by
    decide +kernel
  obtain ⟨c', -, hemptied⟩ := consumer_empties_topic retriedRun 0 [.transientFailure "still busy",
    .transientFailure "busy", .exception "bad input"] (Option.some_get hconsumer).symm
    (Option.some_get htransport).symm (by decide +kernel +revert) (by simp)
    (by decide +kernel +revert)
  exact ⟨_, _, c', (Option.some_get hconsumer).symm, (Option.some_get htransport).symm, hemptied⟩

end Workers

end Motus.Consumer
