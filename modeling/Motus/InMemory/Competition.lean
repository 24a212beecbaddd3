import Motus.Foundation.Repeats
import Motus.InMemory.Distinct

set_option autoImplicit false

/-!
# Competing consumers

Any number of transports may consume from one topic, give back what they took in any
order, and be closed or replaced.  Two things hold of the topic all the same: the
messages are delivered for the first time in the order of their numbers, and a delivery
is flagged as redelivered exactly when the topic has delivered that message before.
-/

namespace Motus.InMemory

open Motus.Foundation Motus.Transport

/-- A message that has not been put back. -/
def first (m : Held) : Bool := !m.redelivered

/-- Messages in the order of their numbers are told apart by them. -/
theorem eq_of_sequence_eq {l : List Held} (h : l.Pairwise Before) {m m' : Held} (hm : m ∈ l)
    (hm' : m' ∈ l) (heq : m.sequence = m'.sequence) : m = m' := by
  have hnodup : (l.map Held.sequence).Nodup := List.pairwise_map.mpr (h.imp fun hlt => hlt.ne)
  exact List.inj_on_of_nodup_map hnodup hm hm' heq

namespace Broker

/-- The topic has delivered the message before. -/
def Known (b : Broker) (topic : Topic) (message : Held) : Prop :=
  ∃ d ∈ deliveriesFrom topic b.history,
    d.sequence = message.sequence ∧ d.body = message.body

theorem Known.of_deliveries {b b' : Broker} {topic : Topic} {message : Held}
    (h : b.Known topic message)
    (hsame : deliveriesFrom topic b'.history = deliveriesFrom topic b.history) :
    b'.Known topic message := by
  rw [Known, hsame]
  exact h

/-- What the deliveries of a topic, and what waits there, say about one another. -/
structure Marked (b : Broker) (topic : Topic) : Prop where
  firsts : ((b.line topic).filter first).Pairwise Before
  numbered : ∀ m ∈ b.line topic, m.sequence ≤ b.sequence
  bodies : ∀ m ∈ b.line topic, ∀ m' ∈ b.line topic, m.sequence = m'.sequence → m.body = m'.body
  repeats : MarksRepeats Held.sequence Held.redelivered (deliveriesFrom topic b.history)
  waiting : ∀ m ∈ b.waitingAt topic, m.redelivered = true → b.Known topic m

section Marked

variable {b b' : Broker} {topic : Topic}

theorem mem_line_of_delivered {m : Held} (h : m ∈ deliveriesFrom topic b.history) :
    m ∈ b.line topic := List.mem_append_left _ h

theorem mem_line_of_waiting {m : Held} (h : m ∈ b.waitingAt topic) : m ∈ b.line topic :=
  List.mem_append_right _ h

/-- Messages leave at the head of a topic and newly numbered ones come to its tail. -/
theorem Marked.of_flows (h : b.Marked topic)
    (hsame : deliveriesFrom topic b'.history = deliveriesFrom topic b.history)
    (hflows : Flows b b' topic) (hsupplies : Supplies b b' topic) : b'.Marked topic := by
  obtain ⟨k, fresh, hwaiting, hsorted, hnew⟩ := hflows.waiting
  have hline : b'.line topic =
      (deliveriesFrom topic b.history ++ (b.waitingAt topic).drop k) ++ fresh := by
    rw [line, hsame, hwaiting, List.append_assoc]
  have hkept : (deliveriesFrom topic b.history ++ (b.waitingAt topic).drop k).Sublist
      (b.line topic) := (List.Sublist.refl _).append (List.drop_sublist _ _)
  have hbefore : ∀ m ∈ b.line topic, ∀ m' ∈ fresh, m.sequence < m'.sequence :=
    fun m hm m' hm' => Nat.lt_of_le_of_lt (h.numbered m hm) (hnew m' hm').1
  -- a message of the longer line was there before, or is one of the new ones
  have hcases : ∀ m ∈ b'.line topic, m ∈ b.line topic ∨ m ∈ fresh := by
    intro m hm
    rw [hline] at hm
    exact (List.mem_append.mp hm).imp_left fun hm => hkept.mem hm
  refine ⟨?_, fun m hm => ?_, fun m hm m' hm' heq => ?_, ?_, fun m hm hmark => ?_⟩
  · rw [hline, List.filter_append, List.pairwise_append]
    refine ⟨h.firsts.sublist (hkept.filter _), hsorted.sublist List.filter_sublist, ?_⟩
    intro m hm m' hm'
    exact hbefore m (hkept.mem (List.mem_of_mem_filter hm)) m' (List.mem_of_mem_filter hm')
  · rcases hcases m hm with hm | hm
    · exact Nat.le_trans (h.numbered m hm) hflows.sequence
    · exact (hnew m hm).2
  · rcases hcases m hm with hm | hm
    · rcases hcases m' hm' with hm' | hm'
      · exact h.bodies m hm m' hm' heq
      · exact absurd heq (hbefore m hm m' hm').ne
    · rcases hcases m' hm' with hm' | hm'
      · exact absurd heq (hbefore m' hm' m hm).ne'
      · exact congrArg Held.body (eq_of_sequence_eq hsorted hm hm' heq)
  · rw [hsame]
    exact h.repeats
  · rcases hsupplies m hm with hold | ⟨-, hnot⟩
    · exact (h.waiting m hold hmark).of_deliveries hsame
    · rw [hmark] at hnot
      exact absurd hnot (by simp)

/-- A message that the topic has delivered goes back to the head of what waits. -/
theorem Marked.of_putsBack {t : Topic} {message : Held} (h : b.Marked topic)
    (hsame : deliveriesFrom topic b'.history = deliveriesFrom topic b.history)
    (hputs : PutsBack b b' t message) (hknown : t = topic → b.Known topic message) :
    b'.Marked topic := by
  by_cases heq : topic = t
  · subst heq
    obtain ⟨d, hd, hsequence, hbody⟩ := hknown rfl
    have hline : b'.line topic = deliveriesFrom topic b.history ++
        { message with redelivered := true } :: b.waitingAt topic := by
      rw [line, hsame, hputs.self]
    -- the new copy has the number and the body of a delivery
    have hcases : ∀ m ∈ b'.line topic, ∃ n ∈ b.line topic,
        n.sequence = m.sequence ∧ n.body = m.body := by
      intro m hm
      rw [hline, List.mem_append, List.mem_cons] at hm
      rcases hm with hm | rfl | hm
      · exact ⟨m, mem_line_of_delivered hm, rfl, rfl⟩
      · exact ⟨d, mem_line_of_delivered hd, hsequence, hbody⟩
      · exact ⟨m, mem_line_of_waiting hm, rfl, rfl⟩
    refine ⟨?_, fun m hm => ?_, fun m hm m' hm' hequal => ?_, ?_, fun m hm hmark => ?_⟩
    · have hfirsts := h.firsts
      rw [line, List.filter_append] at hfirsts
      rw [hline, List.filter_append, List.filter_cons_of_neg (by simp [first])]
      exact hfirsts
    · obtain ⟨n, hn, hnumber, -⟩ := hcases m hm
      rw [hputs.sequence, ← hnumber]
      exact h.numbered n hn
    · obtain ⟨n, hn, hnumber, hsays⟩ := hcases m hm
      obtain ⟨n', hn', hnumber', hsays'⟩ := hcases m' hm'
      rw [← hsays, ← hsays']
      apply h.bodies n hn n' hn'
      rw [hnumber, hnumber', hequal]
    · rw [hsame]
      exact h.repeats
    · rw [hputs.self] at hm
      rcases List.mem_cons.mp hm with rfl | hm
      · exact Known.of_deliveries ⟨d, hd, hsequence, hbody⟩ hsame
      · exact (h.waiting m hm hmark).of_deliveries hsame
  · have hwaiting := hputs.others topic heq
    have hline : b'.line topic = b.line topic := by rw [line, hsame, hwaiting, line]
    refine ⟨hline ▸ h.firsts, ?_, hline ▸ h.bodies, hsame ▸ h.repeats, fun m hm hmark => ?_⟩
    · rw [hline, hputs.sequence]
      exact h.numbered
    · rw [hwaiting] at hm
      exact (h.waiting m hm hmark).of_deliveries hsame

/-- A message that waits is flagged exactly when the topic has delivered its number. -/
theorem Marked.flagged_iff {m : Held} (h : b.Marked topic) (hm : m ∈ b.waitingAt topic) :
    m.redelivered = true ↔ ∃ d ∈ deliveriesFrom topic b.history, d.sequence = m.sequence := by
  constructor
  · intro hmark
    obtain ⟨d, hd, hsequence, -⟩ := h.waiting m hm hmark
    exact ⟨d, hd, hsequence⟩
  · rintro ⟨d, hd, hsequence⟩
    by_contra hnot
    -- otherwise the number would have two first deliveries
    obtain ⟨e, he, hfirst, hunmarked⟩ := h.repeats.exists_first hd
    have hfirsts := h.firsts
    rw [line, List.filter_append, List.pairwise_append] at hfirsts
    have hlt := hfirsts.2.2 e (List.mem_filter.mpr ⟨he, by simp [first, hunmarked]⟩)
      m (List.mem_filter.mpr ⟨hm, by simp [first, hnot]⟩)
    exact absurd (hfirst.trans hsequence) hlt.ne

/-- The head of a topic is delivered: the line stays, and the delivery is flagged
exactly when it is not the first of its number. -/
theorem Marked.handedOut {t : Topic} {state : TopicState} {message : Held} {rest : List Held}
    (h : b.Marked topic) (hfind : b.find t = some state)
    (hmessages : state.messages = message :: rest) (i : Nat) :
    (b.handedOut i t state message rest).Marked topic := by
  have hhistory : (b.handedOut i t state message rest).history =
      b.history ++ [.delivered i t message] := by
    simp [Broker.handedOut, history_log, Entry.ofTransport]
  by_cases heq : t = topic
  · subst heq
    have hwaiting : b.waitingAt t = message :: rest := by
      rw [waitingAt, hfind, Option.getD_some, hmessages]
    have hdeliveries : deliveriesFrom t (b.handedOut i t state message rest).history =
        deliveriesFrom t b.history ++ [message] := by
      rw [hhistory, deliveriesFrom_append]
      simp [deliveriesFrom]
    have hrest : (b.handedOut i t state message rest).waitingAt t = rest := by
      rw [waitingAt, Broker.handedOut, find_log, find_write_self, Option.getD_some]
    have hline : (b.handedOut i t state message rest).line t = b.line t := by
      rw [line, hdeliveries, hrest, line, hwaiting, List.append_assoc, List.singleton_append]
    have hhead : message ∈ b.waitingAt t := by rw [hwaiting]; exact List.mem_cons_self
    refine ⟨?_, ?_, ?_, ?_, fun m hm hflag => ?_⟩
    · rw [hline]
      exact h.firsts
    · rw [hline]
      exact h.numbered
    · rw [hline]
      exact h.bodies
    · rw [hdeliveries]
      exact h.repeats.concat (h.flagged_iff hhead)
    · rw [hrest] at hm
      obtain ⟨d, hd, hsame⟩ := h.waiting m (by rw [hwaiting]; exact List.mem_cons_of_mem _ hm) hflag
      exact ⟨d, by rw [hdeliveries]; exact List.mem_append_left _ hd, hsame⟩
  · have hdeliveries : deliveriesFrom topic (b.handedOut i t state message rest).history =
        deliveriesFrom topic b.history := by
      rw [hhistory, deliveriesFrom_append]
      simp [deliveriesFrom, heq]
    have hfind' : (b.handedOut i t state message rest).find topic = b.find topic :=
      find_write_of_ne _ heq _
    have hline := line_congr hdeliveries hfind'
    refine ⟨hline ▸ h.firsts, ?_, hline ▸ h.bodies, hdeliveries ▸ h.repeats, fun m hm hmark => ?_⟩
    · rw [hline]
      exact h.numbered
    · rw [waitingAt, hfind', ← waitingAt] at hm
      exact (h.waiting m hm hmark).of_deliveries hdeliveries

theorem known_handedOut {t : Topic} {state : TopicState} {message : Held} {rest : List Held}
    (i : Nat) : (b.handedOut i t state message rest).Known t message := by
  refine ⟨message, ?_, rfl, rfl⟩
  simp [Broker.handedOut, history_log, Entry.ofTransport, deliveriesFrom]

end Marked

end Broker

open InMemoryTransport Broker

/-! ## One call -/

section Site

variable {i : Nat} {a : Action} {b b' : Broker} {t t' : InMemoryTransport}

/-- A call delivers nothing, or the head of the topic its transport consumes from. -/
theorem SiteEffect.deliveries (heffect : SiteEffect i a b t b' t') (htidy : t.Tidy) :
    (∀ topic, deliveriesFrom topic b'.history = deliveriesFrom topic b.history) ∨
      ∃ state message rest, b.find t.topic = some state ∧ state.messages = message :: rest ∧
        b' = b.handedOut i t.topic state message rest := by
  have hperformed : ∀ (n : Nat) (message : Held) (d : Disposition) (topic : Topic),
      deliveriesFrom topic ((b.log (.resolved i n)).performed t.topic message d).history =
        deliveriesFrom topic b.history := by
    intro n message d topic
    rw [history_performed, deliveriesFrom_resolved]
  cases heffect with
  | quiet => exact .inl fun _ => rfl
  | declaredForensic topic options =>
      exact .inl fun _ => by rw [history_ensureTopic]
  | declared topic options => exact .inl fun _ => by rw [history_ensureTopic]
  | published topic payload options => exact .inl fun _ => by rw [history_publish]
  | subscribed topic => exact .inl fun _ => rfl
  | purged topic => exact .inl fun _ => by rw [history_purge]
  | delivered state message rest _ _ _ hfind hmessages =>
      exact .inr ⟨state, message, rest, hfind, hmessages, rfl⟩
  | handled message d => exact .inl (hperformed _ message d)
  | settled tag message d => exact .inl (hperformed tag message d)
  | left =>
      rcases htidy.unresolved_cases with hempty | ⟨message, hmessage⟩
      · rw [unresolved_of_isEmpty hempty]
        exact .inl fun _ => rfl
      · rw [htidy.unresolved_of_getElem? hmessage]
        exact .inl fun topic => deliveriesFrom_resolved _ topic i message.sequence

/-- A call keeps the marks of a topic when the transport, if it consumes from it, holds
nothing but what the topic has delivered. -/
theorem SiteEffect.marked {topic : Topic} (heffect : SiteEffect i a b t b' t') (htidy : t.Tidy)
    (hheld : t.topic = topic → ∀ message, t.Holds message → b.Known topic message)
    (h : b.Marked topic) : b'.Marked topic := by
  rcases heffect.deliveries htidy with hsame | ⟨state, message, rest, hfind, hmessages, rfl⟩
  · rcases heffect.flows htidy with ⟨hback, hflows⟩ | ⟨message, -, hholds, hputs⟩
    · exact h.of_flows (hsame topic) (hflows topic) (heffect.supplies hback topic)
    · exact h.of_putsBack (hsame topic) hputs fun htopic => hheld htopic message hholds
  · exact h.handedOut hfind hmessages i

/-- What a topic has delivered stays delivered. -/
theorem SiteEffect.known {topic : Topic} {message : Held} (heffect : SiteEffect i a b t b' t')
    (htidy : t.Tidy) (h : b.Known topic message) : b'.Known topic message := by
  obtain ⟨d, hd, hsame⟩ := h
  refine ⟨d, ?_, hsame⟩
  rcases heffect.deliveries htidy with hdeliveries | ⟨state, message, rest, -, -, rfl⟩
  · rw [hdeliveries]
    exact hd
  · rw [handedOut, history_log, deliveriesFrom_append]
    exact List.mem_append_left _ hd

end Site

/-! ## Runs -/

namespace System

/-- What any number of consumers of a topic have been handed, and what waits for them. -/
structure Competing (topic : Topic) (s : System) : Prop where
  counted : Counted s
  marked : s.broker.Marked topic
  /-- whoever holds a message of the topic was handed it -/
  held : ∀ (i : Nat) (t : InMemoryTransport), s.transports[i]? = some t → t.topic = topic →
    ∀ message, t.Holds message → s.broker.Known topic message

theorem competing_init (topic : Topic) : Competing topic machine.init := by
  refine ⟨counted_init, ⟨List.Pairwise.nil, ?_, ?_, marksRepeats_nil, ?_⟩, fun i t ht => ?_⟩
  · exact fun m hm => absurd hm List.not_mem_nil
  · exact fun m hm => absurd hm List.not_mem_nil
  · exact fun m hm => absurd hm List.not_mem_nil
  · exact absurd ht (by simp [machine])

theorem Competing.step {topic : Topic} {s : System} (h : Competing topic s) (a : Action) :
    Competing topic (s.step a) := by
  have hcounted := h.counted.step a
  have heffect := step_effect s a
  generalize s.step a = s' at hcounted heffect ⊢
  cases heffect with
  | nothing hback => exact h
  | created haction =>
      refine ⟨hcounted, h.marked, fun i t ht htopic message hholds => ?_⟩
      rcases lookup_created ht with ht | rfl
      · exact h.held i t ht htopic message hholds
      · exact absurd hholds (not_holds_initial message)
  | @site i t t' b' haction hlookup hsite =>
      have htidy := h.counted.standing.tidy t (List.mem_of_getElem? hlookup)
      refine ⟨hcounted, hsite.marked htidy (h.held i t hlookup) h.marked,
        fun j u hu htopic message hholds => ?_⟩
      by_cases hij : i = j
      · subst hij
        obtain rfl := Option.some.inj ((lookup_set_self hlookup t').symm.trans hu)
        obtain ⟨hkept, hheld | ⟨state, rest, hfind, hmessages, rfl⟩⟩ := hsite.holds htidy hholds
        · exact hsite.known htidy (h.held i t hlookup (hkept ▸ htopic) message hheld)
        · rw [← htopic, hkept]
          exact known_handedOut i
      · rw [List.getElem?_set_ne hij] at hu
        exact hsite.known htidy (h.held j u hu htopic message hholds)

theorem always_competing (topic : Topic) (actions : List Action) :
    machine.Always (Competing topic) actions :=
  Machine.AlwaysFrom.of_step actions (fun _ a hs => hs.step a) (competing_init topic)

/-- The deliveries of a topic that were not flagged, in order, and the messages that
wait there for their first delivery. -/
def firstDeliveries (topic : Topic) (s : System) : List Held :=
  (s.broker.line topic).filter first

/-- Whoever consumes from a topic, its messages are delivered for the first time in the
order they were published, each at most once, and those that wait for it come later. -/
theorem first_deliveries_in_order (topic : Topic) (actions : List Action) :
    machine.Always (fun s => (firstDeliveries topic s).Pairwise Before) actions :=
  (always_competing topic actions).mono fun _ hs => hs.marked.firsts

/-- The flag of a delivery tells whether the topic delivered the message before. -/
structure Flagged (topic : Topic) (s : System) : Prop where
  repeats : MarksRepeats Held.sequence Held.redelivered (deliveriesFrom topic s.broker.history)
  /-- what comes again is the same message -/
  bodies : ∀ m ∈ deliveriesFrom topic s.broker.history,
    ∀ m' ∈ deliveriesFrom topic s.broker.history, m.sequence = m'.sequence → m.body = m'.body
  /-- and so for what will be delivered next -/
  waiting : ∀ m ∈ s.broker.waitingAt topic, m.redelivered = true ↔
    ∃ d ∈ deliveriesFrom topic s.broker.history, d.sequence = m.sequence

/-- A delivery is flagged as redelivered exactly when the topic has delivered that very
message before, to whichever consumer. -/
theorem redelivered_flag_exact (topic : Topic) (actions : List Action) :
    machine.Always (Flagged topic) actions := by
  refine (always_competing topic actions).mono fun s hs => ⟨hs.marked.repeats, ?_, ?_⟩
  · intro m hm m' hm'
    exact hs.marked.bodies m (mem_line_of_delivered hm) m' (mem_line_of_delivered hm')
  · exact fun m hm => hs.marked.flagged_iff hm

end System

end Motus.InMemory
