import Motus.InMemory.Calls
import Motus.InMemory.Returns

set_option autoImplicit false

/-!
# One number, one message

No two messages of a topic, waiting there or held by its subscribers, share a number.
What comes to a topic without having been put back is numbered anew and not flagged as
redelivered.

The condition is on `settle` alone: a subscriber that puts a delivery back while its own
handler still runs would have it wait and be held at once.
-/

namespace Motus.InMemory

open Motus.Foundation Motus.Transport

namespace Broker

/-- Everything that waits at a topic waited there before, or is numbered anew and not
flagged as redelivered. -/
def Supplies (b b' : Broker) (topic : Topic) : Prop :=
  ∀ m ∈ b'.waitingAt topic, m ∈ b.waitingAt topic ∨ b.sequence < m.sequence ∧ m.redelivered = false

section Supplies

variable {b b' : Broker} {topic : Topic}

theorem Supplies.of_subset (h : b'.waitingAt topic ⊆ b.waitingAt topic) : Supplies b b' topic :=
  fun _ hm => .inl (h hm)

theorem Supplies.of_evolves (h : Evolves b.sequence b b') : Supplies b b' topic := by
  cases hfind : b.find topic with
  | none =>
      apply Supplies.of_subset
      rw [waitingAt, h.absent topic hfind, waitingAt, hfind]
      exact List.Subset.refl _
  | some state =>
      obtain ⟨state', hfind', hadvance⟩ := h.present topic state hfind
      obtain ⟨k, fresh, hmessages, -, hnew⟩ := hadvance.messages
      intro m hm
      rw [waitingAt, hfind', Option.getD_some, hmessages] at hm
      rw [waitingAt, hfind, Option.getD_some]
      rcases List.mem_append.mp hm with hm | hm
      · exact .inl (List.mem_of_mem_drop hm)
      · exact .inr ⟨(hnew m hm).1, (hnew m hm).2.2⟩

theorem supplies_ensureTopic (b : Broker) (topic t : Topic) (options : TopicOptions) :
    Supplies b (ensureTopic t options b).2 topic := by
  apply Supplies.of_subset
  rw [waitingAt_ensureTopic]
  exact List.Subset.refl _

theorem supplies_publish (b : Broker) (topic t : Topic) (body : Bytes) (route : String) :
    Supplies b (publish t body route b).2 topic := by
  have hevolves := publish_evolves t body route b
  rw [← sequence_opened b t] at hevolves
  have hopened : (b.opened t).waitingAt topic = b.waitingAt topic := by
    rw [waitingAt, waitingAt, find_opened]
    split
    · next heq => rw [heq, Option.getD_some]
    · rfl
  have hsupplies : Supplies (b.opened t) (publish t body route b).2 topic := .of_evolves hevolves
  rw [Supplies, hopened, sequence_opened] at hsupplies
  exact hsupplies

theorem supplies_purge (b : Broker) (topic t : Topic) : Supplies b (purge t b).2 topic := by
  simp only [purge, Exec.get_bind]
  cases hfind : b.find t with
  | none => exact .of_subset (List.Subset.refl _)
  | some state =>
      have hwaiting : (b.purged t state).waitingAt topic =
          (b.write t { state with messages := [] }).waitingAt topic := rfl
      change Supplies b (b.purged t state) topic
      apply Supplies.of_subset
      rw [hwaiting, waitingAt, find_write]
      split
      · exact List.nil_subset _
      · exact List.Subset.refl _

/-- A final disposition other than `Requeue`. -/
theorem supplies_performed (b : Broker) (entry : Entry) (topic t : Topic) (message : Held)
    {d : Disposition} (hd : d ≠ .requeue) :
    Supplies b ((b.log entry).performed t message d) topic := by
  cases d with
  | ack => exact .of_subset (List.Subset.refl _)
  | deferred => exact .of_subset (List.Subset.refl _)
  | requeue => exact absurd rfl hd
  | reject =>
      have hlogged : Supplies (b.log entry) ((b.log entry).performed t message .reject) topic :=
        .of_evolves (deadLetterVia_evolves (enqueueLocked_evolves _) t message (b.log entry)).1
      exact hlogged

theorem supplies_handedOut (b : Broker) (topic t : Topic) {state : TopicState} {message : Held}
    {rest : List Held} (hfind : b.find t = some state)
    (hmessages : state.messages = message :: rest) (i : Nat) :
    Supplies b (b.handedOut i t state message rest) topic := by
  apply Supplies.of_subset
  rw [waitingAt, handedOut, find_log, find_write]
  split
  · next heq =>
      subst heq
      rw [waitingAt, hfind, Option.getD_some, Option.getD_some, hmessages]
      exact List.subset_cons_self _ _
  · exact List.Subset.refl _

/-- A number that nothing waits under stays free, unless it has not been given out. -/
theorem Flows.free {n : Nat} (h : Flows b b' topic) (hn : n ≤ b.sequence)
    (hfree : ∀ m ∈ b.waitingAt topic, m.sequence ≠ n) :
    ∀ m ∈ b'.waitingAt topic, m.sequence ≠ n := by
  obtain ⟨k, fresh, hwaiting, -, hnew⟩ := h.waiting
  intro m hm
  rw [hwaiting] at hm
  rcases List.mem_append.mp hm with hm | hm
  · exact hfree m (List.mem_of_mem_drop hm)
  · exact (Nat.lt_of_le_of_lt hn (hnew m hm).1).ne'

theorem Flows.nodup (h : Flows b b' topic) (hnumbered : b.Numbered topic)
    (hnodup : ((b.waitingAt topic).map (·.sequence)).Nodup) :
    ((b'.waitingAt topic).map (·.sequence)).Nodup := by
  obtain ⟨k, fresh, hwaiting, hsorted, hnew⟩ := h.waiting
  rw [hwaiting, List.map_append, List.nodup_append]
  refine ⟨hnodup.sublist ((List.drop_sublist _ _).map _), ?_, fun n hn n' hn' => ?_⟩
  · rw [List.Nodup, List.pairwise_map]
    exact hsorted.imp fun hlt => hlt.ne
  · obtain ⟨m, hm, rfl⟩ := List.mem_map.mp hn
    obtain ⟨m', hm', rfl⟩ := List.mem_map.mp hn'
    exact (Nat.lt_of_le_of_lt (hnumbered m (List.mem_of_mem_drop hm)) (hnew m' hm').1).ne

end Supplies

end Broker

open InMemoryTransport Broker

/-- A call that puts nothing back. -/
theorem SiteEffect.supplies {i : Nat} {a : Action} {b b' : Broker} {t t' : InMemoryTransport}
    (heffect : SiteEffect i a b t b' t') (hback : t.putBack a = []) (topic : Topic) :
    Supplies b b' topic := by
  have hfinal : ∀ (message : Held) (d : Disposition),
      t.putBack a = (if d = .requeue then [message] else []) → d ≠ .requeue := by
    intro message d hput hd
    rw [hback, if_pos hd] at hput
    exact absurd hput (by simp)
  cases heffect with
  | quiet => exact .of_subset (List.Subset.refl _)
  | declaredForensic topic' options => exact supplies_ensureTopic b topic _ _
  | declared topic' options => exact supplies_ensureTopic b topic topic' options
  | published topic' payload options => exact supplies_publish b topic topic' payload options.route
  | subscribed topic' => exact .of_subset (List.Subset.refl _)
  | purged topic' => exact supplies_purge b topic topic'
  | delivered state message rest _ _ _ hfind hmessages =>
      exact supplies_handedOut b topic t.topic hfind hmessages i
  | handled message d _ _ _ _ _ hput =>
      exact supplies_performed b _ topic t.topic message (hfinal message d hput)
  | settled tag message d _ _ _ _ _ _ hput =>
      exact supplies_performed b _ topic t.topic message (hfinal message d hput)
  | left _ _ _ _ _ _ hput =>
      rw [← hput, hback]
      exact .of_subset (List.Subset.refl _)

namespace System

/-- No two messages of the topic share a number. -/
structure Distinct (topic : Topic) (s : System) : Prop where
  waiting : ((s.broker.waitingAt topic).map (·.sequence)).Nodup
  /-- what a subscriber holds does not wait as well -/
  held : ∀ (i : Nat) (t : InMemoryTransport) (message : Held), s.transports[i]? = some t →
    t.topic = topic → t.Holds message → ∀ m ∈ s.broker.waitingAt topic, m.sequence ≠ message.sequence
  /-- two subscribers do not hold the same -/
  apart : ∀ (i j : Nat) (t u : InMemoryTransport) (message other : Held), i ≠ j →
    s.transports[i]? = some t → s.transports[j]? = some u → t.topic = topic → u.topic = topic →
    t.Holds message → u.Holds other → message.sequence ≠ other.sequence

theorem distinct_init (topic : Topic) : Distinct topic machine.init := by
  refine ⟨?_, fun i t message ht => ?_, fun i j t u message other hij ht => ?_⟩
  · exact List.nodup_nil
  · exact absurd ht (by simp [machine])
  · exact absurd ht (by simp [machine])

/-- A subscriber of the topic does not requeue a delivery by `settle` while its own
handler still runs. -/
def SettlesOutsideOf (topic : Topic) (s : System) (a : Action) : Prop :=
  ∀ i t tag, a = .settle i tag .requeue → s.transports[i]? = some t → t.topic = topic →
    t.putBack a ≠ [] → t.handling = none

section Step

variable {topic : Topic} {s : System} {i : Nat} {a : Action} {b' : Broker}
  {t t' : InMemoryTransport}

/-- A call that puts nothing back. -/
theorem Distinct.flows (h : Distinct topic s) (hcounted : Counted s)
    (hlookup : s.transports[i]? = some t) (heffect : SiteEffect i a s.broker t b' t')
    (hflows : Flows s.broker b' topic) : Distinct topic ⟨b', s.transports.set i t'⟩ := by
  have htidy := hcounted.standing.tidy t (List.mem_of_getElem? hlookup)
  have hself := lookup_set_self hlookup t'
  have hold : ∀ j u, j ≠ i → (s.transports.set i t')[j]? = some u → s.transports[j]? = some u := by
    intro j u hne hu
    rwa [List.getElem?_set_ne (Ne.symm hne)] at hu
  -- what a subscriber holds was given out, and does not wait
  have hheld : ∀ (j : Nat) (u : InMemoryTransport) (m : Held), s.transports[j]? = some u →
      u.topic = topic → u.Holds m → ∀ w ∈ b'.waitingAt topic, w.sequence ≠ m.sequence :=
    fun j u m hu htopic hholds =>
      hflows.free (hcounted.held u (List.mem_of_getElem? hu) m hholds)
        (h.held j u m hu htopic hholds)
  -- what the transport that was called holds now
  have hnow : ∀ m, t'.topic = topic → t'.Holds m → t.topic = topic ∧
      (t.Holds m ∨ ∃ state rest, s.broker.find t.topic = some state ∧
        state.messages = m :: rest ∧ b' = s.broker.handedOut i t.topic state m rest) := by
    intro m htopic hholds
    obtain ⟨hkept, hcases⟩ := heffect.holds htidy hholds
    exact ⟨hkept ▸ htopic, hcases⟩
  have hown : ∀ m, t'.topic = topic → t'.Holds m →
      (∀ w ∈ b'.waitingAt topic, w.sequence ≠ m.sequence) ∧
        ∀ j u other, j ≠ i → s.transports[j]? = some u → u.topic = topic → u.Holds other →
          m.sequence ≠ other.sequence := by
    intro m htopic hholds
    obtain ⟨hti, hbefore | ⟨state, rest, hfind, hmessages, rfl⟩⟩ := hnow m htopic hholds
    · exact ⟨hheld i t m hlookup hti hbefore, fun j u other hne hu hut hother =>
        h.apart i j t u m other hne.symm hlookup hu hti hut hbefore hother⟩
    · -- it was the head of the topic
      subst hti
      have hwaiting : s.broker.waitingAt t.topic = m :: rest := by
        rw [waitingAt, hfind, Option.getD_some, hmessages]
      refine ⟨fun w hw => ?_, fun j u other hne hu hut hother => ?_⟩
      · have hnodup := h.waiting
        rw [hwaiting, List.map_cons, List.nodup_cons] at hnodup
        rw [waitingAt, Broker.handedOut, find_log, find_write_self, Option.getD_some] at hw
        exact fun heq => hnodup.1 (heq ▸ List.mem_map_of_mem hw)
      · refine h.held j u other hu hut hother m ?_
        rw [hwaiting]
        exact List.mem_cons_self
  refine ⟨hflows.nodup (hcounted.waiting topic) h.waiting, fun j u m hu htopic hholds => ?_,
    fun j k u v m other hne hu hv hut hvt hm hother => ?_⟩
  · by_cases hji : j = i
    · subst hji
      obtain rfl := Option.some.inj (hself.symm.trans hu)
      exact (hown m htopic hholds).1
    · exact hheld j u m (hold j u hji hu) htopic hholds
  · by_cases hji : j = i
    · subst hji
      obtain rfl := Option.some.inj (hself.symm.trans hu)
      exact (hown m hut hm).2 k v other hne.symm (hold k v hne.symm hv) hvt hother
    · by_cases hki : k = i
      · subst hki
        obtain rfl := Option.some.inj (hself.symm.trans hv)
        exact ((hown other hvt hother).2 j u m hji (hold j u hji hu) hut hm).symm
      · exact h.apart j k u v m other hne (hold j u hji hu) (hold k v hki hv) hut hvt hm hother

/-- A call that puts back what its transport holds, which then holds nothing. -/
theorem Distinct.putsBack (h : Distinct topic s) {message : Held}
    (hlookup : s.transports[i]? = some t) (hholds : t.Holds message)
    (hputs : PutsBack s.broker b' t.topic message)
    (hnone : t'.topic = topic → ∀ m, ¬ t'.Holds m) :
    Distinct topic ⟨b', s.transports.set i t'⟩ := by
  -- any other transport that holds something is as it was
  have hold : ∀ j u m, (s.transports.set i t')[j]? = some u → u.topic = topic → u.Holds m →
      j ≠ i ∧ s.transports[j]? = some u := by
    intro j u m hu htopic hm
    by_cases hji : j = i
    · subst hji
      obtain rfl := Option.some.inj ((lookup_set_self hlookup t').symm.trans hu)
      exact absurd hm (hnone htopic m)
    · rw [List.getElem?_set_ne (Ne.symm hji)] at hu
      exact ⟨hji, hu⟩
  have hwaiting : b'.waitingAt topic = s.broker.waitingAt topic ∨ t.topic = topic ∧
      b'.waitingAt topic = { message with redelivered := true } :: s.broker.waitingAt topic := by
    by_cases heq : t.topic = topic
    · subst heq
      exact .inr ⟨rfl, hputs.self⟩
    · exact .inl (hputs.others topic (Ne.symm heq))
  refine ⟨?_, fun j u m hu htopic hm w hw => ?_, fun j k u v m other hne hu hv hut hvt hm hother => ?_⟩
  · rcases hwaiting with hsame | ⟨htopic, hcons⟩
    · change ((b'.waitingAt topic).map (·.sequence)).Nodup
      rw [hsame]
      exact h.waiting
    · change ((b'.waitingAt topic).map (·.sequence)).Nodup
      rw [hcons, List.map_cons, List.nodup_cons]
      refine ⟨fun hmem => ?_, h.waiting⟩
      obtain ⟨w, hw, heq⟩ := List.mem_map.mp hmem
      exact h.held i t message hlookup htopic hholds w hw heq
  · obtain ⟨hji, hu⟩ := hold j u m hu htopic hm
    change w ∈ b'.waitingAt topic at hw
    rcases hwaiting with hsame | ⟨hti, hcons⟩
    · rw [hsame] at hw
      exact h.held j u m hu htopic hm w hw
    · rw [hcons] at hw
      rcases List.mem_cons.mp hw with rfl | hw
      · exact h.apart i j t u message m hji.symm hlookup hu hti htopic hholds hm
      · exact h.held j u m hu htopic hm w hw
  · exact h.apart j k u v m other hne (hold j u m hu hut hm).2 (hold k v other hv hvt hother).2 hut hvt
      hm hother

theorem Distinct.step (h : Distinct topic s) (hcounted : Counted s)
    (hguard : SettlesOutsideOf topic s a) : Distinct topic (s.step a) := by
  have heffect := step_effect s a
  generalize s.step a = s' at heffect ⊢
  cases heffect with
  | nothing hback => exact h
  | created haction =>
      -- the new transport holds nothing
      have hold : ∀ (j : Nat) (u : InMemoryTransport) (m : Held),
          (s.transports ++ [({} : InMemoryTransport)])[j]? = some u → u.Holds m →
          s.transports[j]? = some u := by
        intro j u m hu hm
        rcases lookup_created hu with hu | rfl
        · exact hu
        · exact absurd hm (not_holds_initial m)
      exact ⟨h.waiting, fun j u m hu htopic hm => h.held j u m (hold j u m hu hm) htopic hm,
        fun j k u v m other hne hu hv hut hvt hm hother =>
          h.apart j k u v m other hne (hold j u m hu hm) (hold k v other hv hother) hut hvt hm hother⟩
  | @site i t t' b' haction hlookup hsite =>
      have htidy := hcounted.standing.tidy t (List.mem_of_getElem? hlookup)
      rcases hsite.flows htidy with ⟨-, hflows⟩ | ⟨message, hback, hholds, hputs⟩
      · exact h.flows hcounted hlookup hsite (hflows topic)
      · refine h.putsBack hlookup hholds hputs fun htopic m hm => ?_
        have hti : t.topic = topic := (hsite.holds htidy hm).1 ▸ htopic
        have hputs : t.putBack a ≠ [] := by rw [hback]; simp
        exact hsite.not_holds htidy hputs (fun tag heq => hguard i t tag heq hlookup hti hputs) m hm

end Step

end System

end Motus.InMemory
