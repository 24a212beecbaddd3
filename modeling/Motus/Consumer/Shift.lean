import Motus.Consumer.Worker

set_option autoImplicit false

/-!
# What one piece of work leaves of a Consumer

`Shift` lists what can happen to a Consumer and to the transport it drives, and
`step_shift` shows that nothing else does.  The results about counters, settlements
and retries are proved by cases on it.

The list names the phase in which each thing can happen and what the transport held
before, so that a result about one of them does not have to look at the methods again.
-/

namespace Motus.Consumer

open Motus.Foundation Motus.Transport Motus.InMemory InMemoryTransport

/-- The phases in which nothing has been popped and no handler runs. -/
def Phase.resting : Phase → Bool
  | .settling .. | .handling => false
  | _ => true

/-- Neither the counters nor the queue nor the ledger has changed. -/
structure SameBooks (c c' : Consumer) : Prop where
  configured : c'.configured = c.configured
  settlements : c'.settlements = c.settlements
  counters : (c'.acked, c'.rejected, c'.requeued) = (c.acked, c.rejected, c.requeued)
  phase : c'.phase = c.phase ∨ c.phase.resting = true ∧ c'.phase.resting = true
  ledger : c'.ledger = c.ledger

theorem SameBooks.refl (c : Consumer) : SameBooks c c := ⟨rfl, rfl, rfl, .inl rfl, rfl⟩

/-- From one phase at rest to another. -/
theorem SameBooks.moved {c : Consumer} (hphase : c.phase.resting = true) {phase : Phase}
    (hphase' : phase.resting = true) : SameBooks c { c with phase := phase } :=
  ⟨rfl, rfl, rfl, .inr ⟨hphase, hphase'⟩, rfl⟩

/-- What the lambda of `start` makes of a message and an ending of the handler. -/
def Concludes (c : Consumer) (message : Held) (ending : HandlerEnd) : Except String Disposition :=
  decision inMemoryCapabilities (c.configured.handlers ending)
    ⟨message.body, message.redelivered, message.sequence⟩

/-- What a piece of work, over the broker `b` that it leaves as `b'`, makes of Consumer `i`
and of its transport. -/
inductive Shift (b b' : Broker) (i : Nat) (a : Work) (c : Consumer) (t : InMemoryTransport) :
    Consumer → InMemoryTransport → Prop where
  | quiet {c' : Consumer} {t' : InMemoryTransport} (hbooks : SameBooks c c')
      (hsteady : t.Steady t') : Shift b b' i a c t c' t'
  | pushed (handle : Nat) (d : Disposition) (haction : a = .push i handle d) :
      Shift b b' i a c t { c with
        settlements := c.settlements.push handle d
        ledger.pushed := c.ledger.pushed ++ [⟨handle, d, t.stats.received⟩] } t
  | closed {t' : InMemoryTransport} (haction : a = .call (.close i)) (hphase : c.phase = .idle)
      (hidle : t.idle = true) (hgone : t.Gone t') :
      Shift b b' i a c t
        { c with ledger.returned := c.ledger.returned + t.unresolved.length } t'
  /-- the topic has been declared -/
  | subscribed (topic : Topic) (options : TopicOptions) (haction : a = .startSubscribe i)
      (hphase : c.phase = .starting) (hdeclaring : t.declaring = some (topic, options))
      (hdeclared : (Broker.ensureTopic topic options b).1 = .ok ())
      (hbroker : b' = (Broker.ensureTopic topic options b).2) (hfree : t.subscribed = false) :
      Shift b b' i a c t { c with phase := .idle }
        { t with declaring := none, topic := topic, handler := true, subscribed := true }
  | popped (handle : Nat) (d : Disposition) (rest : List (Nat × Disposition))
      (haction : a = .tryPop i) (hphase : c.phase = .draining)
      (hpending : c.settlements.pending = (handle, d) :: rest) :
      Shift b b' i a c t { c with settlements := ⟨rest⟩, phase := .settling handle d } t
  /-- `settle` returned -/
  | settled (handle : Nat) (d : Disposition) (message : Held) (hd : d ≠ .deferred)
      (haction : a = .settle i) (hphase : c.phase = .settling handle d)
      (hconnected : t.connected = true) (hmessage : t.outstanding[handle]? = some message)
      (hperforms : (b.log (.resolved i handle)).performs t.topic message d = .ok ()) :
      Shift b b' i a c t
        { (c.handed handle d (.ok ())).countSettled d with phase := .draining }
        ({ t with outstanding := t.outstanding.erase handle }.counted (.ok ()) d)
  /-- `settle` took the delivery off the list and could not carry the disposition out -/
  | failed (handle : Nat) (d : Disposition) (message : Held) (e : Exn) (hd : d ≠ .deferred)
      (haction : a = .settle i) (hphase : c.phase = .settling handle d)
      (hmessage : t.outstanding[handle]? = some message)
      (hperforms : (b.log (.resolved i handle)).performs t.topic message d = .error e) :
      Shift b b' i a c t { c.handed handle d (.error e) with phase := .idle }
        { t with outstanding := t.outstanding.erase handle }
  /-- `settle` threw and did nothing -/
  | refused (handle : Nat) (d : Disposition) (e : Exn) (haction : a = .settle i)
      (hphase : c.phase = .settling handle d)
      (hrefused : d = .deferred ∨ t.connected = false ∨ t.outstanding[handle]? = none) :
      Shift b b' i a c t { c.handed handle d (.error e) with phase := .idle } t
  /-- `pump` calls the lambda -/
  | called (state : TopicState) (message : Held) (rest : List Held) (haction : a = .pump i)
      (hphase : c.phase = .pumping) (hidle : t.idle = true) (hconnected : t.connected = true)
      (hhandler : t.handler = true) (hempty : t.outstanding.isEmpty = true)
      (hfind : b.find t.topic = some state) (hmessages : state.messages = message :: rest) :
      Shift b b' i a c t { c with phase := .handling } (t.taking message)
  /-- what the handler threw escaped the lambda -/
  | escaped (message : Held) (ending : HandlerEnd) (what : String)
      (haction : a = .handlerEnds i ending) (hphase : c.phase = .handling)
      (hmessage : t.handling = some message) (hdecision : Concludes c message ending = .error what) :
      Shift b b' i a c t { c with phase := .idle }
        { t with handling := none, stats.abandoned := t.stats.abandoned + 1 }
  | deferred (message : Held) (ending : HandlerEnd) (haction : a = .handlerEnds i ending)
      (hphase : c.phase = .handling) (hmessage : t.handling = some message)
      (hdecision : Concludes c message ending = .ok .deferred) :
      Shift b b' i a c t (({ c with phase := .idle } : Consumer).count .deferred)
        { t with handling := none }
  | concluded (message : Held) (ending : HandlerEnd) (d : Disposition) (hd : d ≠ .deferred)
      (haction : a = .handlerEnds i ending) (hphase : c.phase = .handling)
      (hmessage : t.handling = some message) (hdecision : Concludes c message ending = .ok d) :
      Shift b b' i a c t (({ c with phase := .idle } : Consumer).count d)
        ({ t with handling := none, outstanding := t.outstanding.erase message.sequence }.counted
          ((b.log (.resolved i message.sequence)).performs t.topic message d) d)

namespace Workers

section Act

variable {w : Workers} {i : Nat} {c : Consumer} {t : InMemoryTransport}

theorem byConsumer_eq (hc : w.consumers i = some c) (ht : w.system.transports[i]? = some t)
    (phase : Consumer → InMemoryTransport → Bool)
    (f : Consumer → InMemoryTransport → Workers) :
    w.byConsumer i phase f = if phase c t then f c t else w := by
  simp only [byConsumer, hc, ht]

@[simp] theorem put_consumers_self (s : System) (c : Consumer) :
    (w.put s i c).consumers i = some c := Function.update_self _ _ _

@[simp] theorem put_system (s : System) (c : Consumer) : (w.put s i c).system = s := rfl

/-- What Consumer `i` and its transport have become. -/
def Becomes (w : Workers) (i : Nat) (a : Work) (c : Consumer) (t : InMemoryTransport)
    (w' : Workers) : Prop :=
  ∃ c' t', w'.consumers i = some c' ∧ w'.system.transports[i]? = some t' ∧
    Shift w.system.broker w'.system.broker i a c t c' t'

theorem Becomes.same (hc : w.consumers i = some c) (ht : w.system.transports[i]? = some t)
    (a : Work) : w.Becomes i a c t w :=
  ⟨c, t, hc, ht, .quiet (.refl c) (.refl t)⟩

/-- Only the Consumer is written. -/
theorem Becomes.consumer (ht : w.system.transports[i]? = some t) {a : Work} {c' : Consumer}
    (h : Shift w.system.broker w.system.broker i a c t c' t) :
    w.Becomes i a c t (w.put w.system i c') :=
  ⟨c', t, put_consumers_self _ c', ht, h⟩

/-- The transport, as it is in `s`, runs one of its methods. -/
theorem Becomes.method {α : Type} {x : Method α} {may : InMemoryTransport → Bool} {b : Action}
    {s : System} {u : InMemoryTransport} (hu : s.transports[i]? = some u)
    (hstep : s.step b = s.call i may x) (hmay : may u = true) {a : Work} {c' : Consumer}
    (h : Shift w.system.broker (x ⟨s.broker, u, i⟩).2.broker i a c t c'
      (x ⟨s.broker, u, i⟩).2.self) :
    w.Becomes i a c t (w.put (s.step b) i c') := by
  have hafter := hstep.trans (System.call_of_may x hu hmay)
  obtain ⟨hlt, -⟩ := List.getElem?_eq_some_iff.mp hu
  refine ⟨c', (x ⟨s.broker, u, i⟩).2.self, put_consumers_self _ c', ?_, ?_⟩
  · rw [put_system, hafter]
    exact List.getElem?_set_self hlt
  · rw [put_system, hafter]
    exact h

theorem Becomes.note {a : Work} {w' : Workers} (h : w.Becomes i a c t w') (notes : List Note) :
    w.Becomes i a c t (w'.note notes) := h

/-- Consumer `i` and its transport are as they were. -/
theorem Becomes.leaves {w' : Workers} (hc : w'.consumers i = some c)
    (ht : w'.system.transports[i]? = some t) (a : Work) : w.Becomes i a c t w' :=
  ⟨c, t, hc, ht, .quiet (.refl c) (.refl t)⟩

end Act

/-! ## What is written -/

/-- The Consumer of transport `j` was written, and calls were made on that transport. -/
def Writes (w : Workers) (j : Nat) (w' : Workers) : Prop :=
  ∃ (c : Consumer) (calls : List Action) (log : List Note),
    (∀ b ∈ calls, b.transport = some j) ∧
      w' = ⟨System.machine.runFrom w.system calls, Function.update w.consumers j (some c), log⟩

theorem writes_put (w : Workers) (j : Nat) (c : Consumer) (calls : List Action)
    (hcalls : ∀ b ∈ calls, b.transport = some j) :
    w.Writes j (w.put (System.machine.runFrom w.system calls) j c) :=
  ⟨c, calls, w.log, hcalls, rfl⟩

theorem Writes.note {w w' : Workers} {j : Nat} (h : w.Writes j w') (notes : List Note) :
    w.Writes j (w'.note notes) := by
  obtain ⟨c, calls, log, hcalls, rfl⟩ := h
  exact ⟨c, calls, log ++ notes, hcalls, rfl⟩

theorem byConsumer_writes {w : Workers} {j : Nat} {phase : Consumer → InMemoryTransport → Bool}
    {f : Consumer → InMemoryTransport → Workers} (hf : ∀ c t, f c t = w ∨ w.Writes j (f c t)) :
    w.byConsumer j phase f = w ∨ w.Writes j (w.byConsumer j phase f) := by
  unfold byConsumer
  split
  · split
    · exact hf _ _
    · exact .inl rfl
  · exact .inl rfl

theorem noteReturned_writes (w : Workers) (b : Action) :
    w.noteReturned b = w ∨ ∃ j, b.transport = some j ∧ w.Writes j (w.noteReturned b) := by
  cases b with
  | close j =>
      refine (byConsumer_writes fun c t => ?_).imp_right fun h => ⟨j, rfl, h⟩
      exact .inr (w.writes_put j _ [] (by simp))
  | _ => exact .inl rfl

/-- A piece of work writes one Consumer, or is a call that no Consumer makes. -/
theorem act_writes (w : Workers) (a : Work) :
    w.act a = w ∨ (∃ j, a.transport = some j ∧ w.Writes j (w.act a)) ∨
      ∃ b, a = .call b ∧ w.act a = { w.noteReturned b with system := w.system.step b } := by
  have hby : ∀ {j : Nat} {phase : Consumer → InMemoryTransport → Bool}
      {f : Consumer → InMemoryTransport → Workers}, a.transport = some j →
      (∀ c t, f c t = w ∨ w.Writes j (f c t)) → w.act a = w.byConsumer j phase f →
      w.act a = w ∨ (∃ j, a.transport = some j ∧ w.Writes j (w.act a)) ∨
        ∃ b, a = .call b ∧ w.act a = { w.noteReturned b with system := w.system.step b } := by
    intro j phase f hj hf hact
    rw [hact]
    exact (byConsumer_writes hf).imp_right fun h => .inl ⟨j, hj, h⟩
  have hidle : ∀ (j : Nat) (c : Consumer), w.Writes j (w.put w.system j c) :=
    fun j c => w.writes_put j c [] (by simp)
  have hone : ∀ (j : Nat) (c : Consumer) (b : Action), b.transport = some j →
      w.Writes j (w.put (w.system.step b) j c) :=
    fun j c b hb => w.writes_put j c [b] (by simpa using hb)
  cases a with
  | call b =>
      simp only [act]
      split
      · exact .inr (.inr ⟨b, rfl, rfl⟩)
      · exact .inl rfl
  | construct j configured =>
      simp only [act]
      split
      · split
        · exact .inr (.inl ⟨j, rfl, hidle j _⟩)
        · exact .inl rfl
      · exact .inl rfl
  | attachSettlementQueue j => exact hby rfl (fun c t => .inr (hidle j _)) rfl
  | push j handle d => exact hby rfl (fun c t => .inr (hidle j _)) rfl
  | start j topic options allowAsymmetric =>
      refine hby rfl (fun c t => ?_) rfl
      unfold start
      split
      · exact .inl rfl
      · dsimp only
        split
        · exact .inr (hone j _ _ rfl)
        · exact .inr (hone j _ _ rfl)
  | startSubscribe j =>
      refine hby rfl (fun c t => ?_) rfl
      unfold startSubscribe
      dsimp only
      split
      · next topic _ _ _ =>
          exact .inr (w.writes_put j _ [.ensureTopicSource j, .subscribe j topic true]
            (by simp [Action.transport]))
      · exact .inr (hone j _ _ rfl)
  | poll j => exact hby rfl (fun c t => .inr (hidle j _)) rfl
  | tryPop j =>
      refine hby rfl (fun c t => ?_) rfl
      unfold tryPop
      split
      · exact .inr (hidle j _)
      · exact .inr (hidle j _)
  | settle j =>
      refine hby rfl (fun c t => ?_) rfl
      unfold settle
      split
      · dsimp only
        split
        · exact .inr (hone j _ _ rfl)
        · exact .inr (hone j _ _ rfl)
      · exact .inl rfl
  | pump j =>
      refine hby rfl (fun c t => ?_) rfl
      unfold pump
      dsimp only
      split
      · exact .inr (hone j _ _ rfl)
      · split
        · exact .inr ((hone j _ _ rfl).note _)
        · exact .inr (hone j _ _ rfl)
      · exact .inr (hone j _ _ rfl)
  | sliceOver j => exact hby rfl (fun c t => .inr (hidle j _)) rfl
  | handlerEnds j ending =>
      refine hby rfl (fun c t => ?_) rfl
      unfold handlerEnds
      split
      · exact .inl rfl
      · dsimp only
        split
        · exact .inr (hone j _ _ rfl)
        · exact .inr ((hone j _ _ rfl).note _)

/-- Whatever the calls keep of the system, a piece of work keeps. -/
theorem system_step {P : System → Prop} (hstep : ∀ s b, P s → P (s.step b)) {w : Workers}
    (a : Work) (h : P w.system) : P (w.step a).system := by
  change P (w.act a).system
  rcases w.act_writes a with hsame | ⟨j, -, c, calls, log, -, hwrites⟩ | ⟨b, -, hcall⟩
  · rw [hsame]
    exact h
  · rw [hwrites]
    exact (Machine.AlwaysFrom.of_step (m := System.machine) calls hstep h).last
  · rw [hcall]
    exact hstep _ b h

/-- Calls on one transport leave the others. -/
theorem runFrom_lookup {i j : Nat} (hne : j ≠ i) (calls : List Action)
    (hcalls : ∀ b ∈ calls, b.transport = some j) {s : System} {t : InMemoryTransport}
    (ht : s.transports[i]? = some t) :
    (System.machine.runFrom s calls).transports[i]? = some t := by
  induction calls generalizing s with
  | nil => exact ht
  | cons b rest ih =>
      refine ih (fun b hb => hcalls b (List.mem_cons_of_mem _ hb)) ?_
      refine System.step_lookup_of_ne ?_ ht
      rw [hcalls b List.mem_cons_self]
      exact fun heq => hne (Option.some.inj heq)

section Own

variable {w : Workers} {i : Nat} {c : Consumer} {t : InMemoryTransport}
  (hc : w.consumers i = some c) (ht : w.system.transports[i]? = some t)
include hc ht

theorem becomes_call (a : Action) : w.Becomes i (.call a) c t (w.act (.call a)) := by
  simp only [act]
  cases hmay : w.mayCall a with
  | false => exact .same hc ht _
  | true =>
      rw [if_pos rfl]
      by_cases htransport : a.transport = some i
      · have hleaves : c.leaves a = true := by
          rw [← hmay, mayCall, htransport, Option.bind_some, hc]
        have hquiet : a.isQuiet = true →
            w.Becomes i (.call a) c t { w with system := w.system.step a } := by
          intro hquiet
          obtain ⟨t', ht', heffect⟩ := w.system.step_lookup a ht
          exact ⟨c, t', hc, ht', .quiet (.refl c) (heffect.steady_of_quiet hquiet)⟩
        cases a with
        | create => exact absurd htransport (by simp [Action.transport])
        | connect j => exact hquiet rfl
        | ensureTopic j topic options => exact hquiet rfl
        | ensureTopicSource j => exact hquiet rfl
        | send j topic payload options => exact hquiet rfl
        | purgeTopic j topic => exact hquiet rfl
        | close j =>
            obtain rfl : j = i := Option.some.inj htransport
            rw [noteReturned, byConsumer_eq hc ht]
            cases hidle : t.idle with
            | true =>
                rw [if_pos rfl]
                refine .method ht rfl hidle (.closed rfl ?_ hidle (gone_close j _ t))
                simpa [Consumer.leaves] using hleaves
            | false =>
                rw [if_neg (by simp)]
                have hsame : w.system.step (.close j) = w.system :=
                  System.call_of_not ht hidle
                rw [hsame]
                exact .same hc ht _
        | _ => exact absurd hleaves Bool.false_ne_true
      · have ht' := System.step_lookup_of_ne htransport ht
        refine Becomes.leaves ?_ ht' _
        rcases w.noteReturned_writes a with hsame | ⟨j, hj, c', calls, log, -, hwrites⟩
        · rw [hsame]
          exact hc
        · rw [hwrites]
          refine (Function.update_of_ne (fun heq => htransport ?_) _ _).trans hc
          rw [hj, heq]

theorem becomes_push (handle : Nat) (d : Disposition) :
    w.Becomes i (.push i handle d) c t (w.act (.push i handle d)) := by
  simp only [act]
  rw [byConsumer_eq hc ht, if_pos rfl]
  exact .consumer ht (.pushed handle d rfl)

theorem becomes_start (topic : Topic) (options : TopicOptions) (allowAsymmetric : Bool) :
    w.Becomes i (.start i topic options allowAsymmetric) c t
      (w.act (.start i topic options allowAsymmetric)) := by
  simp only [act]
  rw [byConsumer_eq hc ht]
  split
  · next hmay =>
      simp only [Bool.and_eq_true, beq_iff_eq] at hmay
      obtain ⟨hphase, hidle⟩ := hmay
      have hcallable : t.callable = true := by
        simp only [idle, Bool.and_eq_true] at hidle
        exact hidle.1
      have hsteady := steady_beginEnsureTopic i w.system.broker t topic options
      simp only [start]
      cases checkTopicOptions inMemoryCapabilities options allowAsymmetric with
      | error e => exact .same hc ht _
      | ok =>
          dsimp only
          split
          · exact .method ht rfl hcallable (.quiet (.refl c) hsteady)
          · refine .method ht rfl hcallable (.quiet (.moved ?_ rfl) hsteady)
            rw [hphase]
            rfl
  · exact .same hc ht _

theorem becomes_startSubscribe :
    w.Becomes i (.startSubscribe i) c t (w.act (.startSubscribe i)) := by
  simp only [act]
  rw [byConsumer_eq hc ht]
  split
  · next hmay =>
      simp only [Bool.and_eq_true, beq_iff_eq] at hmay
      obtain ⟨hphase, hlives⟩ := hmay
      have hresting : c.phase.resting = true := by rw [hphase]; rfl
      have hfailed : w.Becomes i (.startSubscribe i) c t
          (w.put (w.system.step (.ensureTopicSource i)) i { c with phase := .idle }) :=
        .method ht rfl hlives (.quiet (.moved hresting rfl) (steady_endEnsureTopic i _ t))
      unfold startSubscribe
      cases hdeclaring : t.declaring with
      | none =>
          have hrun : (endEnsureTopic ⟨w.system.broker, t, i⟩).1 = .ok () := by
            simp [endEnsureTopic, hdeclaring]
          rw [hrun]
          exact hfailed
      | some declaration =>
          obtain ⟨topic, options⟩ := declaration
          have hrun : endEnsureTopic ⟨w.system.broker, t, i⟩ =
              ((Broker.ensureTopic topic options w.system.broker).1,
                ⟨(Broker.ensureTopic topic options w.system.broker).2,
                  { t with declaring := none }, i⟩) := by
            simp [endEnsureTopic, hdeclaring, ensureTopicSource]
          rw [hrun]
          cases hdeclared : (Broker.ensureTopic topic options w.system.broker).1 with
          | error e => exact hfailed
          | ok =>
              dsimp only
              -- the subscription, on the transport that has finished its declaration
              have hstep : w.system.step (.ensureTopicSource i) =
                  ⟨(Broker.ensureTopic topic options w.system.broker).2,
                    w.system.transports.set i { t with declaring := none }⟩ := by
                refine (System.call_of_may _ ht hlives).trans ?_
                rw [hrun]
              have ht' : (w.system.step (.ensureTopicSource i)).transports[i]? =
                  some { t with declaring := none } := by
                rw [hstep]
                obtain ⟨hlt, -⟩ := List.getElem?_eq_some_iff.mp ht
                exact List.getElem?_set_self hlt
              have hcallable : callable { t with declaring := none } = true := by
                simpa [callable] using hlives
              refine .method ht' rfl hcallable ?_
              rcases subscribe_run i (w.system.step (.ensureTopicSource i)).broker
                { t with declaring := none } topic true with
                ⟨e, hsubscribe⟩ | ⟨-, -, hfree, hsubscribe⟩
              · rw [hsubscribe]
                exact .quiet (.moved hresting rfl) ⟨rfl, rfl, id, rfl, rfl, rfl, rfl⟩
              · rw [hsubscribe]
                refine .subscribed topic options rfl hphase hdeclaring hdeclared ?_ hfree
                rw [hstep]
  · exact .same hc ht _

theorem becomes_tryPop : w.Becomes i (.tryPop i) c t (w.act (.tryPop i)) := by
  simp only [act]
  rw [byConsumer_eq hc ht]
  split
  · next hmay =>
      have hphase : c.phase = .draining := by simpa using hmay
      unfold tryPop SettlementQueue.tryPop
      cases hpending : c.settlements.pending with
      | nil =>
          refine .consumer ht (.quiet (.moved ?_ rfl) (.refl t))
          rw [hphase]
          rfl
      | cons front rest =>
          obtain ⟨handle, d⟩ := front
          exact .consumer ht (.popped handle d rest rfl hphase hpending)
  · exact .same hc ht _

theorem becomes_settle : w.Becomes i (.settle i) c t (w.act (.settle i)) := by
  simp only [act]
  rw [byConsumer_eq hc ht]
  split
  · next hcallable =>
      unfold settle
      cases hphase : c.phase with
      | settling handle d =>
          dsimp only
          have hrefused : ∀ e, InMemoryTransport.settle handle d ⟨w.system.broker, t, i⟩ =
              (.error e, ⟨w.system.broker, t, i⟩) →
              (d = .deferred ∨ t.connected = false ∨ t.outstanding[handle]? = none) →
              w.Becomes i (.settle i) c t (w.put (w.system.step (.settle i handle d)) i
                { c.handed handle d (.error e) with phase := .idle }) := by
            intro e hrun hwhy
            refine .method ht rfl hcallable ?_
            rw [hrun]
            exact .refused handle d e rfl hphase hwhy
          by_cases hd : d = .deferred
          · subst hd
            obtain ⟨e, hrun⟩ := settle_run_deferred i w.system.broker t handle
            rw [hrun]
            exact hrefused e hrun (.inl rfl)
          · by_cases hnone : t.connected = true → t.outstanding[handle]? = none
            · obtain ⟨what, hrun⟩ := settle_run_none i w.system.broker t hd hnone
              rw [hrun]
              refine hrefused _ hrun (.inr ?_)
              cases hconnected : t.connected with
              | false => exact .inl rfl
              | true => exact .inr (hnone hconnected)
            · obtain ⟨hconnected, hsome⟩ := Classical.not_imp.mp hnone
              obtain ⟨message, hmessage⟩ := Option.ne_none_iff_exists'.mp hsome
              have hrun := settle_run i w.system.broker t hd hconnected hmessage
              rw [hrun]
              cases hperforms : (w.system.broker.log (.resolved i handle)).performs t.topic
                message d with
              | ok =>
                  refine .method ht rfl hcallable ?_
                  rw [hrun, hperforms]
                  exact .settled handle d message hd rfl hphase hconnected hmessage hperforms
              | error e =>
                  refine .method ht rfl hcallable ?_
                  rw [hrun, hperforms]
                  exact .failed handle d message e hd rfl hphase hmessage hperforms
      | _ => exact .same hc ht _
  · exact .same hc ht _

theorem becomes_pump : w.Becomes i (.pump i) c t (w.act (.pump i)) := by
  simp only [act]
  rw [byConsumer_eq hc ht]
  split
  · next hmay =>
      simp only [Bool.and_eq_true, beq_iff_eq] at hmay
      obtain ⟨hphase, hidle⟩ := hmay
      have hresting : c.phase.resting = true := by rw [hphase]; rfl
      rcases pumpTurn_run i w.system.broker t with
        ⟨hsame, hnot⟩ | ⟨hconnected, hhandler, hempty, state, message, rest, hfind, hmessages,
          hrun⟩
      · have hquiet : ∀ c' : Consumer, SameBooks c c' →
            w.Becomes i (.pump i) c t (w.put (w.system.step (.pump i)) i c') := by
          intro c' hbooks
          refine .method ht rfl hidle (.quiet hbooks ?_)
          rw [hsame]
          exact .refl t
        unfold pump
        cases hresult : (pumpTurn ⟨w.system.broker, t, i⟩).1 with
        | error e => exact hquiet _ (.moved hresting rfl)
        | ok turn =>
            cases turn with
            | done result => exact hquiet _ (.moved hresting rfl)
            | slept => exact hquiet _ (.refl c)
            | calling delivery => exact absurd hresult (hnot delivery)
      · have hcalled : w.Becomes i (.pump i) c t
            (w.put (w.system.step (.pump i)) i { c with phase := .handling }) := by
          refine .method ht rfl hidle ?_
          rw [hrun]
          exact .called state message rest rfl hphase hidle hconnected hhandler hempty hfind
            hmessages
        unfold pump
        rw [hrun]
        dsimp only
        split
        · exact hcalled.note _
        · exact hcalled
  · exact .same hc ht _

theorem becomes_handlerEnds (ending : HandlerEnd) :
    w.Becomes i (.handlerEnds i ending) c t (w.act (.handlerEnds i ending)) := by
  simp only [act]
  rw [byConsumer_eq hc ht]
  split
  · next hmay =>
      simp only [Bool.and_eq_true, beq_iff_eq] at hmay
      obtain ⟨hphase, hcallable⟩ := hmay
      unfold handlerEnds
      cases hmessage : t.handling with
      | none => exact .same hc ht _
      | some message =>
          dsimp only
          cases hdecision : decision inMemoryCapabilities (c.configured.handlers ending)
            ⟨message.body, message.redelivered, message.sequence⟩ with
          | error what =>
              refine .method ht rfl hcallable ?_
              rw [endPump_run_threw i w.system.broker t what hmessage]
              exact .escaped message ending what rfl hphase hmessage hdecision
          | ok d =>
              refine Becomes.note (.method ht rfl hcallable ?_) _
              by_cases hd : d = .deferred
              · subst hd
                rw [endPump_run_deferred i w.system.broker t hmessage]
                exact .deferred message ending rfl hphase hmessage hdecision
              · rw [endPump_run i w.system.broker t hd hmessage]
                exact .concluded message ending d hd rfl hphase hmessage hdecision
  · exact .same hc ht _

/-- Work for another transport. -/
theorem becomes_of_ne {a : Work} (hne : a.transport ≠ some i) : w.Becomes i a c t (w.act a) := by
  rcases w.act_writes a with hsame | ⟨j, hj, c', calls, log, hcalls, hwrites⟩ | ⟨b, rfl, -⟩
  · rw [hsame]
    exact .same hc ht a
  · rw [hwrites]
    have hji : j ≠ i := fun heq => hne (by rw [hj, heq])
    exact .leaves ((Function.update_of_ne (Ne.symm hji) _ _).trans hc)
      (runFrom_lookup hji calls hcalls ht) a
  · exact becomes_call hc ht b

theorem act_becomes (a : Work) : w.Becomes i a c t (w.act a) := by
  by_cases htransport : a.transport = some i
  · cases a with
    | call b => exact becomes_call hc ht b
    | construct j configured =>
        obtain rfl : j = i := Option.some.inj htransport
        simp only [act, hc]
        exact .same hc ht _
    | attachSettlementQueue j =>
        obtain rfl : j = i := Option.some.inj htransport
        simp only [act]
        rw [byConsumer_eq hc ht]
        split
        · exact .consumer ht (.quiet ⟨rfl, rfl, rfl, .inl rfl, rfl⟩ (.refl t))
        · exact .same hc ht _
    | push j handle d =>
        obtain rfl : j = i := Option.some.inj htransport
        exact becomes_push hc ht handle d
    | start j topic options allowAsymmetric =>
        obtain rfl : j = i := Option.some.inj htransport
        exact becomes_start hc ht topic options allowAsymmetric
    | startSubscribe j =>
        obtain rfl : j = i := Option.some.inj htransport
        exact becomes_startSubscribe hc ht
    | poll j =>
        obtain rfl : j = i := Option.some.inj htransport
        simp only [act]
        rw [byConsumer_eq hc ht]
        split
        · next hmay =>
            simp only [Bool.and_eq_true, beq_iff_eq] at hmay
            refine .consumer ht (.quiet (.moved ?_ ?_) (.refl t))
            · rw [hmay.1]
              rfl
            · cases c.attached <;> rfl
        · exact .same hc ht _
    | tryPop j =>
        obtain rfl : j = i := Option.some.inj htransport
        exact becomes_tryPop hc ht
    | settle j =>
        obtain rfl : j = i := Option.some.inj htransport
        exact becomes_settle hc ht
    | pump j =>
        obtain rfl : j = i := Option.some.inj htransport
        exact becomes_pump hc ht
    | sliceOver j =>
        obtain rfl : j = i := Option.some.inj htransport
        simp only [act]
        rw [byConsumer_eq hc ht]
        split
        · next hmay =>
            refine .consumer ht (.quiet (.moved ?_ rfl) (.refl t))
            rw [eq_of_beq hmay]
            rfl
        · exact .same hc ht _
    | handlerEnds j ending =>
        obtain rfl : j = i := Option.some.inj htransport
        exact becomes_handlerEnds hc ht ending
  · exact becomes_of_ne hc ht htransport

/-- What a piece of work leaves of a Consumer, with what the observer adds. -/
theorem step_shift (a : Work) : ∃ c' t',
    (w.step a).consumers i =
      some { c' with ledger.resolved := c'.ledger.resolved ++ observed t t' } ∧
    (w.step a).system.transports[i]? = some t' ∧
      Shift w.system.broker (w.step a).system.broker i a c t c' t' := by
  obtain ⟨c', t', hc', ht', hshift⟩ := act_becomes hc ht a
  refine ⟨c', t', ?_, ht', hshift⟩
  simp only [step, hc', Option.map_some, observe, ht, ht']

end Own

theorem byConsumer_of_none {w : Workers} {i : Nat} (h : w.consumers i = none)
    (phase : Consumer → InMemoryTransport → Bool) (f : Consumer → InMemoryTransport → Workers) :
    w.byConsumer i phase f = w := by
  simp only [byConsumer, h]

/-- The Consumer that `construct` makes, over a transport nobody has used. -/
structure Constructs (w : Workers) (i : Nat) (a : Work) (c : Consumer) (t : InMemoryTransport) :
    Prop where
  action : a = .construct i c.configured
  lookup : w.system.transports[i]? = some t
  unused : unused t = true
  fresh : c = { configured := c.configured }
  same : (w.step a).system = w.system

/-- A Consumer was there before, or is constructed. -/
theorem step_consumer {w : Workers} {i : Nat} {a : Work} {c : Consumer}
    (h : (w.step a).consumers i = some c) :
    (∃ c, w.consumers i = some c) ∨ ∃ t, w.Constructs i a c t := by
  cases hnone : w.consumers i with
  | some c => exact .inl ⟨c, rfl⟩
  | none =>
      refine .inr ?_
      -- nothing but a construction makes a Consumer
      have hgone : (w.act a).consumers i = none → ∃ t, w.Constructs i a c t := by
        intro hsame
        simp only [step, hsame, Option.map_none] at h
        exact absurd h (by simp)
      by_cases htransport : a.transport = some i
      · cases a with
        | call b =>
            refine hgone ?_
            simp only [act]
            split
            · cases b with
              | close j =>
                  obtain rfl : j = i := Option.some.inj htransport
                  rw [noteReturned, byConsumer_of_none hnone]
                  exact hnone
              | _ => exact hnone
            · exact hnone
        | construct j configured =>
            obtain rfl : j = i := Option.some.inj htransport
            cases ht : w.system.transports[j]? with
            | none =>
                refine hgone ?_
                simp only [act, hnone, ht]
            | some t =>
                cases hhandlers : checkHandlers inMemoryCapabilities configured with
                | error e =>
                    refine hgone ?_
                    simp only [act, hnone, ht, hhandlers]
                | ok =>
                    cases hunused : unused t with
                    | false =>
                        refine hgone ?_
                        simp only [act, hnone, ht, hhandlers, hunused]
                        rw [if_neg (by simp)]
                        exact hnone
                    | true =>
                        have hact : w.act (.construct j configured) =
                            w.put w.system j { configured := configured } := by
                          simp only [act, hnone, ht, hhandlers, hunused, if_true]
                        have hidle : observed t t = [] :=
                          if_neg fun hboth => by simp [hboth.1] at hboth
                        simp only [step, hact, put_consumers_self, Option.map_some, observe, ht,
                          put_system, hidle, List.append_nil] at h
                        obtain rfl := Option.some.inj h
                        refine ⟨t, rfl, ht, hunused, rfl, ?_⟩
                        simp only [step, hact, put_system]
        | _ =>
            obtain rfl := Option.some.inj htransport
            refine hgone ?_
            simp only [act]
            rw [byConsumer_of_none hnone]
            exact hnone
      · rcases w.act_writes a with hsame | ⟨j, hj, c', calls, log, -, hwrites⟩ | ⟨b, rfl, hcall⟩
        · exact hgone (by rw [hsame, hnone])
        · refine hgone ?_
          rw [hwrites]
          exact (Function.update_of_ne (fun heq => htransport (by rw [hj, heq])) _ _).trans hnone
        · refine hgone ?_
          rw [hcall]
          rcases w.noteReturned_writes b with hsame | ⟨j, hj, c', calls, log, -, hwrites⟩
          · change (w.noteReturned b).consumers i = none
            rw [hsame, hnone]
          · have hij : i ≠ j := fun heq => htransport (by rw [Work.transport, hj, heq])
            change (w.noteReturned b).consumers i = none
            rw [hwrites]
            exact (Function.update_of_ne hij _ _).trans hnone

end Workers

end Motus.Consumer
