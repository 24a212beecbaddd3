import Motus.InMemory.Order

set_option autoImplicit false

/-!
# The order of what waits

`Flows` is what a call does to a waiting list when it puts nothing back: messages
leave at the head and newly numbered ones come to the tail.  A message that is put
back goes before the head, so with several workers the list stays sorted exactly when
what comes back is lower than what waits.
-/

namespace Motus.InMemory

open Motus.Foundation Motus.Transport

/-- An earlier number. -/
def Before (m m' : Held) : Prop := m.sequence < m'.sequence

instance : DecidableRel Before := fun m m' => inferInstanceAs (Decidable (m.sequence < m'.sequence))

namespace Broker

/-- Messages leave the head of a topic, and newly numbered ones come to its tail. -/
structure Flows (b b' : Broker) (topic : Topic) : Prop where
  sequence : b.sequence ≤ b'.sequence
  waiting : ∃ k fresh, b'.waitingAt topic = (b.waitingAt topic).drop k ++ fresh ∧
    fresh.Pairwise Before ∧ ∀ m ∈ fresh, b.sequence < m.sequence ∧ m.sequence ≤ b'.sequence

/-- One message is put before the head of a topic, and nothing else changes. -/
structure PutsBack (b b' : Broker) (topic : Topic) (message : Held) : Prop where
  sequence : b'.sequence = b.sequence
  self : b'.waitingAt topic = { message with redelivered := true } :: b.waitingAt topic
  others : ∀ t, t ≠ topic → b'.waitingAt t = b.waitingAt t

section Flows

variable {b b' b'' : Broker} {topic : Topic}

/-- Only the head may have left. -/
theorem Flows.of_drop (hsequence : b.sequence ≤ b'.sequence) (k : Nat)
    (hwaiting : b'.waitingAt topic = (b.waitingAt topic).drop k) : Flows b b' topic := by
  refine ⟨hsequence, k, [], ?_, List.Pairwise.nil, fun m hm => absurd hm List.not_mem_nil⟩
  rw [hwaiting, List.append_nil]

theorem Flows.of_waiting (hsequence : b.sequence ≤ b'.sequence)
    (hwaiting : b'.waitingAt topic = b.waitingAt topic) : Flows b b' topic := by
  apply Flows.of_drop hsequence 0
  rw [hwaiting, List.drop_zero]

/-- The same, seen from a broker with the same queue. -/
theorem Flows.of_eq (h : Flows b b' topic) (hsequence : b''.sequence = b.sequence)
    (hwaiting : b''.waitingAt topic = b.waitingAt topic) : Flows b'' b' topic := by
  refine ⟨hsequence ▸ h.sequence, ?_⟩
  rw [hsequence, hwaiting]
  exact h.waiting

theorem Flows.of_evolves (h : Evolves b.sequence b b') : Flows b b' topic := by
  cases hfind : b.find topic with
  | none =>
      apply Flows.of_waiting h.sequence_le
      rw [waitingAt, h.absent topic hfind, waitingAt, hfind]
  | some state =>
      obtain ⟨state', hfind', hadvance⟩ := h.present topic state hfind
      obtain ⟨k, fresh, hmessages, hsorted, hnew⟩ := hadvance.messages
      refine ⟨h.sequence_le, k, fresh, ?_, hsorted, fun m hm => ?_⟩
      · rw [waitingAt, hfind', Option.getD_some, hmessages, waitingAt, hfind, Option.getD_some]
      · exact ⟨(hnew m hm).1, (hnew m hm).2.1⟩

theorem flows_ensureTopic (b : Broker) (topic t : Topic) (options : TopicOptions) :
    Flows b (ensureTopic t options b).2 topic := by
  refine .of_waiting ?_ (waitingAt_ensureTopic t topic options b)
  obtain ⟨groups, ⟨hsame, -⟩ | ⟨-, hnew⟩⟩ := ensureTopic_apply t options b
  · rw [hsame]
  · rw [hnew]
    exact Nat.le_refl _

theorem flows_publish (b : Broker) (topic t : Topic) (body : Bytes) (route : String) :
    Flows b (publish t body route b).2 topic := by
  have hevolves := publish_evolves t body route b
  rw [← sequence_opened b t] at hevolves
  have hflows : Flows (b.opened t) _ topic := .of_evolves hevolves
  refine hflows.of_eq (sequence_opened b t).symm ?_
  rw [waitingAt, waitingAt, find_opened]
  split
  · next heq => rw [heq, Option.getD_some]
  · rfl

theorem flows_purge (b : Broker) (topic t : Topic) : Flows b (purge t b).2 topic := by
  simp only [purge, Exec.get_bind]
  cases hfind : b.find t with
  | none => exact .of_waiting (Nat.le_refl _) rfl
  | some state =>
      have hwaiting : (b.purged t state).waitingAt topic =
          (b.write t { state with messages := [] }).waitingAt topic := rfl
      change Flows b (b.purged t state) topic
      refine .of_drop (Nat.le_refl _) (if t = topic then state.messages.length else 0) ?_
      rw [hwaiting, waitingAt, find_write]
      split
      · next heq =>
          subst heq
          rw [waitingAt, hfind, Option.getD_some, Option.getD_some, List.drop_length]
      · rw [List.drop_zero, waitingAt]

/-- A final disposition other than `Requeue`. -/
theorem flows_performed (b : Broker) (entry : Entry) (topic t : Topic) (message : Held)
    {d : Disposition} (hd : d ≠ .requeue) :
    Flows b ((b.log entry).performed t message d) topic := by
  cases d with
  | ack => exact .of_waiting (Nat.le_refl _) rfl
  | deferred => exact .of_waiting (Nat.le_refl _) rfl
  | requeue => exact absurd rfl hd
  | reject =>
      have hlogged : Flows (b.log entry) ((b.log entry).performed t message .reject) topic :=
        .of_evolves (deadLetterVia_evolves (enqueueLocked_evolves _) t message (b.log entry)).1
      exact hlogged.of_eq rfl rfl

theorem flows_handedOut (b : Broker) (topic t : Topic) {state : TopicState} {message : Held}
    {rest : List Held} (hfind : b.find t = some state)
    (hmessages : state.messages = message :: rest) (i : Nat) :
    Flows b (b.handedOut i t state message rest) topic := by
  refine .of_drop (Nat.le_refl _) (if t = topic then 1 else 0) ?_
  rw [waitingAt, handedOut, find_log, find_write]
  split
  · next heq =>
      subst heq
      rw [waitingAt, hfind, Option.getD_some, Option.getD_some, hmessages]
      rfl
  · rw [List.drop_zero, waitingAt]

theorem putsBack_pushFront (b : Broker) (entry : Entry) (t : Topic) (message : Held) :
    PutsBack b ((b.log entry).performed t message .requeue) t message := by
  refine ⟨rfl, ?_, fun u hu => ?_⟩
  · rw [performed, waitingAt, find_pushFront, if_pos rfl]
    rfl
  · rw [performed, waitingAt, find_pushFront, if_neg (Ne.symm hu)]
    rfl

theorem putsBack_putBackAll (b : Broker) (i : Nat) (t : Topic) (message : Held) :
    PutsBack b (b.putBackAll i t [message]) t message := by
  have hone : b.putBackAll i t [message] =
      (b.pushFront t { message with redelivered := true }).log (.resolved i message.sequence) := rfl
  rw [hone]
  refine ⟨rfl, ?_, fun u hu => ?_⟩
  · rw [waitingAt, find_log, find_pushFront, if_pos rfl]
    rfl
  · rw [waitingAt, find_log, find_pushFront, if_neg (Ne.symm hu), waitingAt]

/-! ## Sorted lists -/

/-- The numbers of the waiting messages increase. -/
def Ascending (b : Broker) (topic : Topic) : Prop := (b.waitingAt topic).Pairwise Before

instance (b : Broker) (topic : Topic) : Decidable (b.Ascending topic) :=
  inferInstanceAs (Decidable ((b.waitingAt topic).Pairwise Before))

/-- No waiting message has a number that was not given out. -/
def Numbered (b : Broker) (topic : Topic) : Prop :=
  ∀ m ∈ b.waitingAt topic, m.sequence ≤ b.sequence

theorem Flows.numbered (h : Flows b b' topic) (hnumbered : b.Numbered topic) :
    b'.Numbered topic := by
  obtain ⟨k, fresh, hwaiting, -, hnew⟩ := h.waiting
  intro m hm
  rw [hwaiting] at hm
  rcases List.mem_append.mp hm with hm | hm
  · exact Nat.le_trans (hnumbered m (List.mem_of_mem_drop hm)) h.sequence
  · exact (hnew m hm).2

theorem Flows.ascending (h : Flows b b' topic) (hnumbered : b.Numbered topic)
    (hascending : b.Ascending topic) : b'.Ascending topic := by
  obtain ⟨k, fresh, hwaiting, hsorted, hnew⟩ := h.waiting
  rw [Ascending, hwaiting, List.pairwise_append]
  refine ⟨hascending.sublist (List.drop_sublist _ _), hsorted, fun m hm m' hm' => ?_⟩
  exact Nat.lt_of_le_of_lt (hnumbered m (List.mem_of_mem_drop hm)) (hnew m' hm').1

/-- What is lower than everything that waits stays so. -/
theorem Flows.below (h : Flows b b' topic) {message : Held}
    (hnumbered : message.sequence ≤ b.sequence) (hbelow : ∀ w ∈ b.waitingAt topic,
      Before message w) : ∀ w ∈ b'.waitingAt topic, Before message w := by
  obtain ⟨k, fresh, hwaiting, -, hnew⟩ := h.waiting
  intro w hw
  rw [hwaiting] at hw
  rcases List.mem_append.mp hw with hw | hw
  · exact hbelow w (List.mem_of_mem_drop hw)
  · exact Nat.lt_of_le_of_lt hnumbered (hnew w hw).1

theorem PutsBack.numbered {t : Topic} {message : Held} (h : PutsBack b b' t message)
    (hmessage : message.sequence ≤ b.sequence) (hnumbered : b.Numbered topic) :
    b'.Numbered topic := by
  intro m hm
  rw [h.sequence]
  by_cases heq : topic = t
  · subst heq
    rw [h.self] at hm
    rcases List.mem_cons.mp hm with rfl | hm
    · exact hmessage
    · exact hnumbered m hm
  · rw [h.others topic heq] at hm
    exact hnumbered m hm

/-- A list stays sorted exactly when what is put before it is lower than all of it. -/
theorem PutsBack.ascending_iff {t : Topic} {message : Held} (h : PutsBack b b' t message)
    (hascending : b.Ascending topic) :
    b'.Ascending topic ↔ (t = topic → ∀ w ∈ b.waitingAt topic, Before message w) := by
  by_cases heq : t = topic
  · subst heq
    rw [Ascending, h.self, List.pairwise_cons]
    exact ⟨fun hafter _ => hafter.1, fun hbelow => ⟨hbelow rfl, hascending⟩⟩
  · rw [Ascending, h.others topic (Ne.symm heq)]
    exact iff_of_true hascending fun hcontra => absurd hcontra heq

end Flows

end Broker

open InMemoryTransport Broker

/-! ## One call -/

section Site

variable {i : Nat} {a : Action} {b b' : Broker} {t t' : InMemoryTransport}

/-- A call puts nothing back, or one message that its transport holds. -/
theorem SiteEffect.flows (heffect : SiteEffect i a b t b' t') (htidy : t.Tidy) :
    (t.putBack a = [] ∧ ∀ topic, Flows b b' topic) ∨
      ∃ message, t.putBack a = [message] ∧ t.Holds message ∧ PutsBack b b' t.topic message := by
  have hperformed : ∀ (entry : Entry) (message : Held) (d : Disposition), t.Holds message →
      t.putBack a = (if d = .requeue then [message] else []) →
      (t.putBack a = [] ∧ ∀ topic, Flows b ((b.log entry).performed t.topic message d) topic) ∨
        ∃ m, t.putBack a = [m] ∧ t.Holds m ∧
          PutsBack b ((b.log entry).performed t.topic message d) t.topic m := by
    intro entry message d hholds hback
    by_cases hd : d = .requeue
    · subst hd
      exact .inr ⟨message, hback, hholds, putsBack_pushFront b entry t.topic message⟩
    · rw [if_neg hd] at hback
      exact .inl ⟨hback, fun topic => flows_performed b entry topic t.topic message hd⟩
  cases heffect with
  | quiet _ _ _ hback => exact .inl ⟨hback, fun _ => .of_waiting (Nat.le_refl _) rfl⟩
  | declaredForensic topic options _ _ _ _ hback =>
      exact .inl ⟨hback, fun u => flows_ensureTopic b u _ _⟩
  | declared topic options _ _ _ _ hback =>
      exact .inl ⟨hback, fun u => flows_ensureTopic b u topic options⟩
  | published topic payload options hsend =>
      exact .inl ⟨by rw [hsend]; rfl, fun u => flows_publish b u topic payload options.route⟩
  | subscribed topic _ hback => exact .inl ⟨hback, fun _ => .of_waiting (Nat.le_refl _) rfl⟩
  | purged topic hback => exact .inl ⟨hback, fun u => flows_purge b u topic⟩
  | delivered state message rest _ _ _ hfind hmessages _ _ _ hback =>
      exact .inl ⟨hback, fun u => flows_handedOut b u t.topic hfind hmessages i⟩
  | handled message d _ hmessage _ _ _ hback => exact hperformed _ message d (.inl hmessage) hback
  | settled tag message d _ _ hmessage _ _ _ hback =>
      exact hperformed _ message d (.inr ⟨tag, hmessage⟩) hback
  | left _ _ _ _ _ _ hback =>
      rcases htidy.unresolved_cases with hempty | ⟨message, hmessage⟩
      · rw [unresolved_of_isEmpty hempty] at hback ⊢
        exact .inl ⟨hback, fun _ => .of_waiting (Nat.le_refl _) rfl⟩
      · rw [htidy.unresolved_of_getElem? hmessage] at hback ⊢
        exact .inr ⟨message, hback, .inr ⟨_, hmessage⟩, putsBack_putBackAll b i t.topic message⟩

/-- A transport that puts a message back, not from inside its handler, then holds
nothing. -/
theorem SiteEffect.not_holds (heffect : SiteEffect i a b t b' t') (htidy : t.Tidy)
    (hback : t.putBack a ≠ []) (houtside : ∀ tag, a = .settle i tag .requeue → t.handling = none)
    (message : Held) : ¬ t'.Holds message := by
  have hquiet : t.putBack a = [] → ¬ t'.Holds message := fun h => absurd h hback
  have herased : ∀ (n : Nat) (m : Held), t'.outstanding = t.outstanding.erase n →
      t'.handling = none → (t.outstanding.isEmpty = true ∨ t.outstanding[n]? = some m) →
      ¬ t'.Holds message := by
    rintro n m houtstanding hhandling hsole (hholds | ⟨tag, hholds⟩)
    · rw [hhandling] at hholds
      exact absurd hholds (by simp)
    · rw [houtstanding, getElem?_erase] at hholds
      split at hholds
      · exact absurd hholds (by simp)
      · next hne =>
          rcases hsole with hempty | hsome
          · rw [getElem?_of_isEmpty hempty] at hholds
            exact absurd hholds (by simp)
          · -- a second delivery would be the first one
            have hlist := (htidy.sole _ _ hholds).1.symm.trans (htidy.sole _ _ hsome).1
            exact absurd (congrArg Prod.fst (List.singleton_inj.mp hlist)) hne
  cases heffect with
  | quiet _ _ _ hnone => exact hquiet hnone
  | declaredForensic topic options _ _ _ _ hnone => exact hquiet hnone
  | declared topic options _ _ _ _ hnone => exact hquiet hnone
  | published topic payload options hsend => exact hquiet (by rw [hsend]; rfl)
  | subscribed topic _ hnone => exact hquiet hnone
  | purged topic hnone => exact hquiet hnone
  | delivered state message rest _ _ _ _ _ _ _ _ hnone => exact hquiet hnone
  | handled m d _ hmessage _ houtstanding hhandling =>
      exact herased m.sequence m houtstanding hhandling (htidy.handling m hmessage)
  | settled tag m d haction _ hmessage _ houtstanding hhandling hput =>
      have hd : d = .requeue := by
        by_contra hd
        rw [if_neg hd] at hput
        exact hback hput
      rw [hd] at haction
      exact herased tag m houtstanding (hhandling.trans (houtside tag haction)) (.inr hmessage)
  | left _ houtstanding hhandling =>
      rintro (hholds | ⟨tag, hholds⟩)
      · rw [hhandling] at hholds
        exact absurd hholds (by simp)
      · rw [getElem?_of_isEmpty houtstanding] at hholds
        exact absurd hholds (by simp)

end Site

/-! ## Runs -/

namespace System

/-- The waiting messages of the topic are in publication order. -/
def Ascending (topic : Topic) (s : System) : Prop := s.broker.Ascending topic

instance (topic : Topic) : DecidablePred (Ascending topic) :=
  fun s => inferInstanceAs (Decidable (s.broker.Ascending topic))

/-- What an action puts back is lower than everything that waits there. -/
def ReturnsBelow (topic : Topic) (s : System) (a : Action) : Prop :=
  ∀ i t, a.transport = some i → s.transports[i]? = some t → t.topic = topic →
    ∀ m ∈ t.putBack a, ∀ w ∈ s.broker.waitingAt topic, Before m w

/-- A delivery is not requeued by `settle` while its own handler still runs. -/
def SettlesOutside (s : System) : Action → Prop
  | .settle i _ .requeue => ∀ t ∈ s.transports[i]?, t.handling = none
  | _ => True

instance (s : System) : ∀ a, Decidable (SettlesOutside s a)
  | .settle i _ .requeue => inferInstanceAs (Decidable (∀ t ∈ s.transports[i]?, t.handling = none))
  | .settle _ _ .ack | .settle _ _ .reject | .settle _ _ .deferred => inferInstanceAs (Decidable True)
  | .create | .connect _ | .close _ | .destroy _ | .ensureTopic .. | .ensureTopicSource _
  | .send .. | .subscribe .. | .purgeTopic .. | .pump _ | .handlerReturns .. =>
      inferInstanceAs (Decidable True)

/-- Every message that waits or is held has a number that was given out. -/
structure Counted (s : System) : Prop where
  standing : Standing s
  waiting : ∀ topic, s.broker.Numbered topic
  held : ∀ t ∈ s.transports, ∀ message, t.Holds message → message.sequence ≤ s.broker.sequence

/-- What a transport holds of the topic is lower than everything that waits there. -/
def HeldBelow (topic : Topic) (s : System) : Prop :=
  ∀ (i : Nat) (t : InMemoryTransport), s.transports[i]? = some t → t.topic = topic →
    ∀ message, t.Holds message → ∀ w ∈ s.broker.waitingAt topic, Before message w

theorem counted_init : Counted machine.init := by
  refine ⟨standing_init, fun topic m hm => ?_, fun t ht => ?_⟩
  · exact absurd hm (by simp [machine, waitingAt, find])
  · exact absurd ht (by simp [machine])

theorem not_holds_initial (message : Held) : ¬ ({} : InMemoryTransport).Holds message := by
  intro hholds
  exact absurd (tidy_initial.subscribed_of_holds hholds) (by simp)

section Step

variable {topic : Topic} {s : System} {a : Action}

theorem Counted.step (h : Counted s) (a : Action) : Counted (s.step a) := by
  have hstanding := h.standing.step a
  have heffect := step_effect s a
  generalize s.step a = s' at hstanding heffect ⊢
  cases heffect with
  | nothing hback => exact h
  | created haction =>
      refine ⟨hstanding, h.waiting, fun t ht message hholds => ?_⟩
      rcases List.mem_append.mp ht with ht | ht
      · exact h.held t ht message hholds
      · rw [List.mem_singleton.mp ht] at hholds
        exact absurd hholds (not_holds_initial message)
  | @site i t t' b' haction hlookup hsite =>
      have ht := List.mem_of_getElem? hlookup
      have htidy := h.standing.tidy t ht
      have hflows := hsite.flows htidy
      have hsequence : s.broker.sequence ≤ b'.sequence := by
        rcases hflows with ⟨-, hflows⟩ | ⟨message, -, -, hback⟩
        · exact (hflows t.topic).sequence
        · rw [hback.sequence]
      refine ⟨hstanding, fun u => ?_, fun v hv message hholds => ?_⟩
      · rcases hflows with ⟨-, hflows⟩ | ⟨message, -, hheld, hback⟩
        · exact (hflows u).numbered (h.waiting u)
        · exact hback.numbered (h.held t ht message hheld) (h.waiting u)
      · refine Nat.le_trans ?_ hsequence
        rcases List.mem_or_eq_of_mem_set hv with hv | rfl
        · exact h.held v hv message hholds
        · obtain ⟨-, hheld | ⟨state, rest, hfind, hmessages, -⟩⟩ := hsite.holds htidy hholds
          · exact h.held t ht message hheld
          · -- it waited at the head of its topic
            apply h.waiting t.topic message
            rw [waitingAt, hfind, Option.getD_some, hmessages]
            exact List.mem_cons_self

/-- A step keeps a topic in order exactly when what it puts back is lower than what
waits there. -/
theorem step_ascending_iff (hcounted : Counted s) (h : Ascending topic s) (a : Action) :
    Ascending topic (s.step a) ↔ ReturnsBelow topic s a := by
  have heffect := step_effect s a
  generalize s.step a = s' at heffect ⊢
  have hnothing : (∀ i t, a.transport = some i → s.transports[i]? = some t → t.putBack a = []) →
      ReturnsBelow topic s a := by
    intro hback i t haction hlookup htopic m hm
    rw [hback i t haction hlookup] at hm
    exact absurd hm List.not_mem_nil
  cases heffect with
  | nothing hback => exact iff_of_true h (hnothing hback)
  | created haction =>
      refine iff_of_true h fun i t hi => ?_
      rw [haction] at hi
      exact absurd hi (by simp [Action.transport])
  | @site i t t' b' haction hlookup hsite =>
      have hsole : ∀ j u, a.transport = some j → s.transports[j]? = some u → u = t := by
        intro j u hj hu
        obtain rfl := Option.some.inj (haction.symm.trans hj)
        exact Option.some.inj (hu.symm.trans hlookup)
      have hflows := hsite.flows (hcounted.standing.tidy t (List.mem_of_getElem? hlookup))
      rcases hflows with ⟨hback, hflows⟩ | ⟨message, hback, -, hputs⟩
      · refine iff_of_true ((hflows topic).ascending (hcounted.waiting topic) h) ?_
        exact hnothing fun j u hj hu => by rw [hsole j u hj hu, hback]
      · refine (hputs.ascending_iff h).trans ⟨fun hbelow j u hj hu htopic m hm => ?_,
          fun hreturns htopic => ?_⟩
        · obtain rfl := hsole j u hj hu
          rw [hback, List.mem_singleton] at hm
          rw [hm]
          exact hbelow htopic
        · exact hreturns i t haction hlookup htopic message (by rw [hback]; exact List.mem_singleton_self _)

/-- The one subscriber of a topic holds what stood before everything that waits. -/
theorem HeldBelow.step (h : HeldBelow topic s) (hcounted : Counted s)
    (hascending : Ascending topic s) (hone : AtMostOneSubscriber topic s)
    (hguard : SettlesOutside s a) : HeldBelow topic (s.step a) := by
  have heffect := step_effect s a
  generalize s.step a = s' at heffect ⊢
  cases heffect with
  | nothing hback => exact h
  | created haction =>
      intro i t ht htopic message hholds
      rcases lookup_created ht with ht | rfl
      · exact h i t ht htopic message hholds
      · exact absurd hholds (not_holds_initial message)
  | @site i t t' b' haction hlookup hsite =>
      have ht := List.mem_of_getElem? hlookup
      have htidy := hcounted.standing.tidy t ht
      have hflows := hsite.flows htidy
      intro j u hu htopic message hholds
      by_cases hij : i = j
      · subst hij
        obtain rfl := Option.some.inj ((lookup_set_self hlookup t').symm.trans hu)
        rcases hflows with ⟨-, hflows⟩ | ⟨m, hback, -, -⟩
        · obtain ⟨hkept, hheld | ⟨state, rest, hfind, hmessages, rfl⟩⟩ := hsite.holds htidy hholds
          · exact (hflows topic).below (hcounted.held t ht message hheld)
              (h i t hlookup (hkept ▸ htopic) message hheld)
          · -- it is the head of a sorted list
            rw [hkept] at htopic
            subst htopic
            have hsorted := hascending
            rw [Ascending, Broker.Ascending, waitingAt, hfind, Option.getD_some, hmessages,
              List.pairwise_cons] at hsorted
            intro w hw
            rw [waitingAt, Broker.handedOut, find_log, find_write_self, Option.getD_some] at hw
            exact hsorted.1 w hw
        · have hnone := hsite.not_holds htidy (by rw [hback]; simp) fun tag heq => by
            subst heq
            exact hguard t hlookup
          exact absurd hholds (hnone message)
      · have hu' : s.transports[j]? = some u := by
          rwa [List.getElem?_set_ne hij] at hu
        have humem := List.mem_of_getElem? hu'
        have hbefore := h j u hu' htopic message hholds
        have hsubscribed := (hcounted.standing.tidy u humem).subscribed_of_holds hholds
        rcases hflows with ⟨-, hflows⟩ | ⟨m, -, hheld, hback⟩
        · exact (hflows topic).below (hcounted.held u humem message hholds) hbefore
        · have hother : topic ≠ t.topic := fun heq =>
            hij (hone.eq hlookup hu' ⟨htidy.subscribed_of_holds hheld, heq.symm⟩
              ⟨hsubscribed, htopic⟩)
          rw [hback.others topic hother]
          exact hbefore

/-- So what it puts back is lower than what waits. -/
theorem HeldBelow.returnsBelow (h : HeldBelow topic s) (hstanding : Standing s) (a : Action) :
    ReturnsBelow topic s a := by
  intro i t haction hlookup htopic m hm
  have htidy := hstanding.tidy t (List.mem_of_getElem? hlookup)
  apply h i t hlookup htopic m
  unfold putBack at hm
  split at hm
  · split at hm
    · exact .inl (Option.mem_toList.mp hm)
    · exact absurd hm List.not_mem_nil
  · split at hm
    · exact .inr ⟨_, Option.mem_toList.mp hm⟩
    · exact absurd hm List.not_mem_nil
  all_goals
    first
    | exact absurd hm List.not_mem_nil
    | split at hm
      · rcases htidy.unresolved_cases with hempty | ⟨message, hmessage⟩
        · rw [unresolved_of_isEmpty hempty] at hm
          exact absurd hm List.not_mem_nil
        · rw [htidy.unresolved_of_getElem? hmessage, List.mem_singleton] at hm
          rw [hm]
          exact .inr ⟨_, hmessage⟩
      · exact absurd hm List.not_mem_nil

end Step

/-- The waiting messages of a topic stay in publication order in exactly the runs in
which each message that is put back is lower than everything that waits.  With one
subscriber at a time that is every run in which no handler's own delivery is requeued
while it runs. -/
theorem always_ascending_iff (topic : Topic) (actions : List Action) :
    (machine.Always (Ascending topic) actions ↔
        machine.Guarded (ReturnsBelow topic) actions) ∧
      (machine.Always (AtMostOneSubscriber topic) actions →
        machine.Guarded SettlesOutside actions → machine.Always (Ascending topic) actions) := by
  have hinit : Ascending topic machine.init := by
    simp [Ascending, Broker.Ascending, machine, waitingAt, find]
  refine ⟨Machine.alwaysFrom_iff_guardedFrom (fun s a hs => hs.step a)
    (fun s a hs hascending => (step_ascending_iff hs hascending a).mpr)
    (fun s a hs hascending => (step_ascending_iff hs hascending a).mp) actions counted_init
    hinit, fun hone houtside => ?_⟩
  have hheld : HeldBelow topic machine.init := by
    intro i t ht
    exact absurd ht (by simp [machine])
  -- the one subscriber's delivery stays below what waits, so nothing goes out of order
  have hboth : machine.Always
      (fun s => Counted s ∧ Ascending topic s ∧ HeldBelow topic s) actions :=
    .of_always_guarded (fun s a hsole hguard h =>
      ⟨h.1.step a, (step_ascending_iff h.1 h.2.1 a).mpr (h.2.2.returnsBelow h.1.standing a),
        h.2.2.step h.1 h.2.1 hsole hguard⟩) ⟨counted_init, hinit, hheld⟩ hone houtside
  exact hboth.mono fun s hs => hs.2.1

theorem always_ascending_replacedRun : machine.Always (Ascending "jobs") replacedRun :=
  (always_ascending_iff "jobs" replacedRun).2 (by decide) (by decide)

/-- Two workers take a message each, and give them back in the order they took them. -/
def crossedRun : List Action :=
  [.create, .create, .connect 0, .connect 1, .ensureTopic 0 "jobs" {}, .ensureTopicSource 0,
    .subscribe 0 "jobs" true, .subscribe 1 "jobs" true,
    .send 0 "jobs" [1] { durable := false }, .send 0 "jobs" [2] { durable := false },
    .pump 0, .pump 1, .handlerReturns 0 (.returned .requeue),
    .handlerReturns 1 (.returned .requeue)]

theorem crossedRun_not_ascending : ¬ machine.Always (Ascending "jobs") crossedRun := by decide

end System

end Motus.InMemory
