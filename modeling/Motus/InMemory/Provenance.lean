import Motus.InMemory.Competition
import Motus.InMemory.Filing

set_option autoImplicit false

/-!
# Where a message comes from

A topic holds, and its consumers are handed, only what was sent to it: to the topic
itself, to a topic of its routing group, or to a topic whose forensic destination it is.
The body is the one that was sent, byte for byte.

A send counts only when it reaches the broker: its transport exists, may be called and is
connected, and the message is not durable.  The account is kept for any family of bodies
that descends from a topic to its forensic destination.
-/

namespace Motus.InMemory

open Motus.Foundation Motus.Transport

namespace Broker

/-! ## Bodies at their places -/

/-- Every message that waits at a topic has a body that belongs there. -/
def Everywhere (P : Topic → Bytes → Prop) (b : Broker) : Prop :=
  ∀ topic, ∀ m ∈ b.waitingAt topic, P topic m.body

/-- What belongs to a topic belongs to its forensic destination. -/
def Descends (P : Topic → Bytes → Prop) : Prop :=
  ∀ topic body, P topic body → P (deadLetterTopic topic) body

section Everywhere

variable {P : Topic → Bytes → Prop} {b b' : Broker}

theorem Everywhere.of_waiting (h : b.Everywhere P)
    (hwaiting : ∀ topic, b'.waitingAt topic ⊆ b.waitingAt topic) : b'.Everywhere P :=
  fun topic m hm => h topic m (hwaiting topic hm)

theorem Everywhere.of_find (h : b.Everywhere P) (hfind : ∀ t, b'.find t = b.find t) :
    b'.Everywhere P := by
  refine h.of_waiting fun topic => ?_
  rw [waitingAt, hfind, ← waitingAt]
  exact List.Subset.refl _

theorem Everywhere.messages (h : b.Everywhere P) {topic : Topic} {state : TopicState}
    (hfind : b.find topic = some state) : ∀ m ∈ state.messages, P topic m.body := by
  intro m hm
  apply h topic m
  rw [waitingAt, hfind, Option.getD_some]
  exact hm

theorem Everywhere.write (h : b.Everywhere P) {topic : Topic} {state : TopicState}
    (hmessages : ∀ m ∈ state.messages, P topic m.body) : (b.write topic state).Everywhere P := by
  intro t m hm
  rw [waitingAt, find_write] at hm
  split at hm
  · next heq => exact heq ▸ hmessages m hm
  · exact h t m hm

theorem Everywhere.pushBack (h : b.Everywhere P) {topic : Topic} {message : Held}
    (hmessage : P topic message.body) : (b.pushBack topic message).Everywhere P := by
  have hwritten : (b.write topic { (b.find topic).getD {} with
      messages := ((b.find topic).getD {}).messages ++ [message] }).Everywhere P := by
    refine h.write fun m hm => ?_
    rcases List.mem_append.mp hm with hm | hm
    · exact h topic m hm
    · rw [List.mem_singleton.mp hm]
      exact hmessage
  exact hwritten.of_find fun _ => rfl

theorem Everywhere.putsBack (h : b.Everywhere P) {topic : Topic} {message : Held}
    (hputs : PutsBack b b' topic message) (hmessage : P topic message.body) :
    b'.Everywhere P := by
  intro t m hm
  by_cases heq : t = topic
  · subst heq
    rw [hputs.self] at hm
    rcases List.mem_cons.mp hm with rfl | hm
    · exact hmessage
    · exact h t m hm
  · rw [hputs.others t heq] at hm
    exact h t m hm

/-- Bodies that belong where they are filed go on to belong there. -/
theorem filing_everywhere (hdescends : Descends P) :
    Filing (fun topic m => P topic m.body) (Everywhere P) where
  pushBack := fun h hmessage => h.pushBack hmessage
  pop := by
    intro b topic state message rest h hfind hmessages
    have hstored := h.messages hfind
    rw [hmessages] at hstored
    exact ⟨h.write fun m hm => hstored m (List.mem_cons_of_mem _ hm),
      hstored message List.mem_cons_self⟩
  close := fun h _ => h.of_find fun _ => rfl
  forward := by
    intro b source message h hmessage
    exact ⟨h.of_find fun _ => rfl, hdescends source message.body hmessage⟩
  offered := fun h => h.of_find fun _ => rfl
  groups := fun h => h.of_find fun _ => rfl
  touch := by
    intro b topic h
    refine h.of_waiting fun t => ?_
    rw [waitingAt, find_touch, waitingAt]
    split
    · next heq =>
        subst heq
        cases b.find topic with
        | none => exact List.Subset.refl _
        | some state => exact List.Subset.refl _
    · exact List.Subset.refl _

end Everywhere

end Broker

open InMemoryTransport Broker

/-! ## One call -/

section Site

variable {P : Topic → Bytes → Prop} {i : Nat} {a : Action} {b b' : Broker}
  {t t' : InMemoryTransport}

/-- A call leaves every body where it belongs when what is sent belongs to every topic
that it can reach. -/
theorem SiteEffect.everywhere (hdescends : Descends P) (heffect : SiteEffect i a b t b' t')
    (htidy : t.Tidy) (hheld : ∀ message, t.Holds message → P t.topic message.body)
    (hsent : ∀ target payload options, a = .send i target payload options →
      t.publishes options = true → ∀ topic, b.Serves target topic → P topic payload)
    (h : b.Everywhere P) : b'.Everywhere P := by
  have hperformed : ∀ (entry : Entry) (message : Held) (d : Disposition), t.Holds message →
      ((b.log entry).performed t.topic message d).Everywhere P := by
    intro entry message d hholds
    have hlogged : (b.log entry).Everywhere P := h.of_find fun _ => rfl
    cases d with
    | ack => exact hlogged.of_find fun _ => rfl
    | deferred => exact hlogged
    | requeue => exact h.putsBack (putsBack_pushFront b entry t.topic message) (hheld message hholds)
    | reject =>
        exact (filing_everywhere hdescends).deadLetter (hheld message hholds) hlogged
  cases heffect with
  | quiet => exact h
  | declaredForensic topic options =>
      exact h.of_waiting fun u => by rw [waitingAt_ensureTopic]; exact List.Subset.refl _
  | declared topic options =>
      exact h.of_waiting fun u => by rw [waitingAt_ensureTopic]; exact List.Subset.refl _
  | published topic payload options haction hpublishes =>
      exact (filing_everywhere hdescends).publish
        (fun u hserves _ => hsent topic payload options haction hpublishes u hserves) h
        options.route
  | subscribed topic => exact h
  | purged topic =>
      simp only [purge, Exec.get_bind]
      cases hfind : b.find topic with
      | none => exact h
      | some state =>
          have hwritten : (b.write topic { state with messages := [] }).Everywhere P :=
            h.write fun m hm => absurd hm List.not_mem_nil
          exact hwritten.of_find fun _ => rfl
  | delivered state message rest _ _ _ hfind hmessages =>
      have htaken := h.messages hfind
      rw [hmessages] at htaken
      have hwritten : (b.write t.topic { state with messages := rest }).Everywhere P :=
        h.write fun m hm => htaken m (List.mem_cons_of_mem _ hm)
      exact hwritten.of_find fun _ => rfl
  | handled message d hd hmessage => exact hperformed _ message d (.inl hmessage)
  | settled tag message d haction hd hmessage => exact hperformed _ message d (.inr ⟨tag, hmessage⟩)
  | left =>
      rcases htidy.unresolved_cases with hempty | ⟨message, hmessage⟩
      · rw [unresolved_of_isEmpty hempty]
        exact h
      · rw [htidy.unresolved_of_getElem? hmessage]
        exact h.putsBack (putsBack_putBackAll b i t.topic message) (hheld message (.inr ⟨_, hmessage⟩))

end Site

/-! ## Runs -/

namespace System

/-- Where a send goes that reaches the broker, and its body. -/
def published (s : System) : Action → Option (Topic × Bytes)
  | .send i topic payload options =>
      match s.transports[i]? with
      | none => none
      | some t => if t.publishes options = true then some (topic, payload) else none
  | _ => none

/-- The sends along a list of actions that reach the broker. -/
def allPublished : System → List Action → List (Topic × Bytes)
  | _, [] => []
  | s, a :: rest => (s.published a).toList ++ allPublished (s.step a) rest

/-- A body that a topic may hold: it was sent to a target that serves the topic, or serves
an origin whose `k`-th forensic destination the topic is. -/
def CameFrom (sent : List (Topic × Bytes)) (s : System) (topic : Topic) (body : Bytes) : Prop :=
  ∃ target origin k, (target, body) ∈ sent ∧ s.broker.Serves target origin ∧
    topic = deadLetterTopic^[k] origin

section Sent

variable {sent sent' : List (Topic × Bytes)} {s s' : System}

theorem CameFrom.dead (sent : List (Topic × Bytes)) (s : System) : Descends (CameFrom sent s) := by
  rintro topic body ⟨target, origin, k, hsent, hserves, rfl⟩
  exact ⟨target, origin, k + 1, hsent, hserves, (Function.iterate_succ_apply' _ k origin).symm⟩

theorem CameFrom.mono {topic : Topic} {body : Bytes} (h : CameFrom sent s topic body)
    (hsent : sent ⊆ sent') (hextends : s.broker.Extends s'.broker) :
    CameFrom sent' s' topic body := by
  obtain ⟨target, origin, k, hbody, hserves, htopic⟩ := h
  exact ⟨target, origin, k, hsent hbody, hserves.extends hextends, htopic⟩

/-- Every message that waits, is held or was delivered came from a send. -/
structure FromSends (sent : List (Topic × Bytes)) (s : System) : Prop where
  waiting : s.broker.Everywhere (CameFrom sent s)
  held : ∀ t ∈ s.transports, ∀ message, t.Holds message →
    CameFrom sent s t.topic message.body
  delivered : ∀ topic, ∀ m ∈ deliveriesFrom topic s.broker.history,
    CameFrom sent s topic m.body

/-- It did, and what that takes stands. -/
structure Traced (sent : List (Topic × Bytes)) (s : System) : Prop extends FromSends sent s where
  standing : Standing s

theorem traced_init : Traced [] machine.init := by
  refine ⟨⟨fun topic m hm => ?_, fun t ht => ?_, fun topic m hm => ?_⟩, standing_init⟩
  · exact absurd hm List.not_mem_nil
  · exact absurd ht (by simp [machine])
  · exact absurd hm List.not_mem_nil

/-- The step lemma: a send that reaches the broker is one source more. -/
theorem Traced.step (h : Traced sent s) (a : Action) :
    Traced (sent ++ (s.published a).toList) (s.step a) := by
  have hstanding := h.standing.step a
  have hextends : s.broker.Extends (s.step a).broker := h.standing.extends a
  have heffect := step_effect s a
  generalize s.step a = s' at hstanding hextends heffect ⊢
  have hlater : ∀ topic body, CameFrom sent s topic body →
      CameFrom (sent ++ (s.published a).toList) s' topic body :=
    fun topic body hcame => hcame.mono (List.subset_append_left _ _) hextends
  have hwaiting : s.broker.Everywhere (CameFrom (sent ++ (s.published a).toList) s') :=
    fun topic m hm => hlater topic m.body (h.waiting topic m hm)
  cases heffect with
  | nothing hback =>
      exact ⟨⟨hwaiting, fun t ht m hm => hlater _ _ (h.held t ht m hm),
        fun topic m hm => hlater _ _ (h.delivered topic m hm)⟩, hstanding⟩
  | created haction =>
      refine ⟨⟨hwaiting, fun t ht m hm => ?_,
        fun topic m hm => hlater _ _ (h.delivered topic m hm)⟩, hstanding⟩
      rcases List.mem_append.mp ht with ht | ht
      · exact hlater _ _ (h.held t ht m hm)
      · rw [List.mem_singleton.mp ht] at hm
        exact absurd hm (not_holds_initial m)
  | @site i t t' b' haction hlookup hsite =>
      have ht := List.mem_of_getElem? hlookup
      have htidy := h.standing.tidy t ht
      refine ⟨⟨?_, fun u hu m hm => ?_, fun topic m hm => ?_⟩, hstanding⟩
      · refine hsite.everywhere (CameFrom.dead _ _) htidy
          (fun m hm => hlater _ _ (h.held t ht m hm)) ?_ hwaiting
        rintro target payload options rfl hpublishes topic hserves
        have hsent : s.published (.send i target payload options) = some (target, payload) := by
          simp only [published, hlookup, hpublishes, if_true]
        refine ⟨target, topic, 0, ?_, hserves.extends hextends, rfl⟩
        rw [hsent]
        exact List.mem_append_right _ (List.mem_singleton_self _)
      · rcases List.mem_or_eq_of_mem_set hu with hu | rfl
        · exact hlater _ _ (h.held u hu m hm)
        · obtain ⟨hkept, hheld | ⟨state, rest, hfind, hmessages, -⟩⟩ := hsite.holds htidy hm
          · rw [hkept]
            exact hlater _ _ (h.held t ht m hheld)
          · -- it waited at the head of its topic
            rw [hkept]
            apply hwaiting.messages hfind
            rw [hmessages]
            exact List.mem_cons_self
      · rcases hsite.deliveries htidy with hsame | ⟨state, message, rest, hfind, hmessages, rfl⟩
        · rw [hsame] at hm
          exact hlater _ _ (h.delivered topic m hm)
        · rw [handedOut, history_log, deliveriesFrom_append, List.mem_append] at hm
          rcases hm with hm | hm
          · exact hlater _ _ (h.delivered topic m hm)
          · have hboth : t.topic = topic ∧ message = m := by
              simpa [Entry.ofTransport, deliveriesFrom, eq_comm] using hm
            obtain ⟨rfl, rfl⟩ := hboth
            apply hwaiting.messages hfind
            rw [hmessages]
            exact List.mem_cons_self

theorem Traced.mono (h : Traced sent s) (hsent : sent ⊆ sent') : Traced sent' s := by
  have hmono : ∀ topic body, CameFrom sent s topic body → CameFrom sent' s topic body :=
    fun topic body hcame => hcame.mono hsent (.refl s.broker)
  exact ⟨⟨fun topic m hm => hmono _ _ (h.waiting topic m hm),
    fun t ht m hm => hmono _ _ (h.held t ht m hm),
    fun topic m hm => hmono _ _ (h.delivered topic m hm)⟩, h.standing⟩

/-- The run lemma. -/
theorem Traced.runFrom {actions : List Action} (h : Traced sent s) :
    Traced (sent ++ allPublished s actions) (machine.runFrom s actions) := by
  induction actions generalizing s sent with
  | nil => rwa [allPublished, List.append_nil]
  | cons a rest ih =>
      have hnext := ih (h.step a)
      rwa [List.append_assoc] at hnext

end Sent

/-- Whatever waits at a topic, is held by a consumer of it or was delivered from it was
sent, with the very same body and by a send that reached the broker, to the topic itself, to
a topic of its routing group, or to one whose forensic destination it is: nothing is made
up, altered or put elsewhere. -/
theorem bodies_come_from_sends (actions : List Action) :
    FromSends (allPublished machine.init actions) (machine.run actions) :=
  traced_init.runFrom.toFromSends

end System

end Motus.InMemory
