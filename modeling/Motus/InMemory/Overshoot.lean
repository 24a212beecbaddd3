import Motus.InMemory.Capacity
import Motus.InMemory.Returns

set_option autoImplicit false

/-!
# How far a bounded topic can overshoot

A delivery that is out leaves room in its topic, a publish may fill that room, and the
delivery may come back.  So a bounded topic can hold more than its limit, but only by as
many messages as were out at one time: what waits and what is out together never exceed
the limit by more than that.
-/

namespace Motus.InMemory

open Motus.Foundation Motus.Transport

namespace InMemoryTransport

instance (t : InMemoryTransport) : Decidable t.busy :=
  inferInstanceAs (Decidable (t.outstanding.isEmpty = false ∨ t.handling.isSome = true))

/-- The transport has a delivery of the topic that may still come back to it. -/
def holdsOf (topic : Topic) (t : InMemoryTransport) : Bool := decide (t.topic = topic ∧ t.busy)

/-- The deliveries of the topic that the transport has: none or one. -/
def heldOf (topic : Topic) (t : InMemoryTransport) : Nat := if t.holdsOf topic then 1 else 0

section Held

variable {topic : Topic} {t t' : InMemoryTransport}

theorem heldOf_le_one (topic : Topic) (t : InMemoryTransport) : t.heldOf topic ≤ 1 := by
  unfold heldOf
  split <;> omega

theorem heldOf_of_busy (hbusy : t.busy) : t.heldOf t.topic = 1 := by
  rw [heldOf, if_pos (by simp [holdsOf, hbusy])]

theorem heldOf_of_ne (hne : t.topic ≠ topic) : t.heldOf topic = 0 := by
  rw [heldOf, if_neg (by simp [holdsOf, hne])]

theorem heldOf_of_not_busy (hfree : ¬ t.busy) : t.heldOf topic = 0 := by
  rw [heldOf, if_neg (by simp [holdsOf, hfree])]

theorem not_busy (hempty : t.outstanding.isEmpty = true) (hnone : t.handling = none) :
    ¬ t.busy := by
  rintro (hheld | hrunning)
  · rw [hempty] at hheld
    exact absurd hheld (by simp)
  · rw [hnone] at hrunning
    exact absurd hrunning (by simp)

/-- A transport that stays on its topic and has taken nothing has no more than before. -/
theorem heldOf_mono (htopic : t'.topic = t.topic) (hbusy : t'.busy → t.busy) :
    t'.heldOf topic ≤ t.heldOf topic := by
  by_cases hnow : t'.topic = topic ∧ t'.busy
  · rw [← hnow.1, htopic, heldOf_of_busy (hbusy hnow.2)]
    exact heldOf_le_one _ _
  · rw [heldOf, if_neg (by simpa [holdsOf] using hnow)]
    exact Nat.zero_le _

/-- It is busy only if it was before. -/
theorem busy_of_kept (houtstanding : t'.outstanding = t.outstanding)
    (hhandling : t'.handling = t.handling ∨ t'.handling = none) (hbusy : t'.busy) : t.busy := by
  rcases hbusy with hheld | hrunning
  · exact .inl (houtstanding ▸ hheld)
  · rcases hhandling with hsame | hnone
    · exact .inr (hsame ▸ hrunning)
    · rw [hnone] at hrunning
      exact absurd hrunning (by simp)

end Held

end InMemoryTransport

open InMemoryTransport

namespace Broker

/-- How many messages wait at a topic. -/
def backlog (b : Broker) (topic : Topic) : Nat := (b.waitingAt topic).length

theorem backlog_of_find {b : Broker} {topic : Topic} {state : TopicState}
    (h : b.find topic = some state) : b.backlog topic = state.messages.length := by
  rw [backlog, waitingAt, h, Option.getD_some]

theorem backlog_congr {b b' : Broker} {topic : Topic} (h : b'.find topic = b.find topic) :
    b'.backlog topic = b.backlog topic := by
  rw [backlog, backlog, waitingAt, waitingAt, h]

/-- If the topic is bounded, no more messages wait than before or than fit. -/
def Fits (b b' : Broker) (topic : Topic) : Prop :=
  ∀ state', b'.find topic = some state' → 0 < state'.options.maxLength →
    b'.backlog topic ≤ max (b.backlog topic) state'.options.maxLength

section Fits

variable {b b' : Broker} {topic : Topic}

theorem Fits.of_backlog_le (h : b'.backlog topic ≤ b.backlog topic) : Fits b b' topic :=
  fun _ _ _ => le_max_of_le_left h

theorem Fits.of_find (h : b'.find topic = b.find topic) : Fits b b' topic :=
  .of_backlog_le (backlog_congr h).le

/-- Publishing and dead-lettering fill a topic up to its limit at most. -/
theorem Fits.of_evolves {lo : Nat} (h : Evolves lo b b') : Fits b b' topic := by
  intro state' hfind' hpos
  cases hfind : b.find topic with
  | none =>
      rw [h.absent topic hfind] at hfind'
      exact absurd hfind' (by simp)
  | some state =>
      obtain ⟨state'', hfind'', hadvance⟩ := h.present topic state hfind
      obtain rfl := Option.some.inj (hfind''.symm.trans hfind')
      rw [backlog_of_find hfind', backlog_of_find hfind, hadvance.options]
      exact hadvance.bounded (hadvance.options ▸ hpos)

theorem backlog_opened (b : Broker) (origin topic : Topic) :
    (b.opened origin).backlog topic = b.backlog topic := by
  rw [backlog, backlog, waitingAt, waitingAt, find_opened]
  split
  · next h =>
      subst h
      cases b.find origin <;> rfl
  · rfl

theorem fits_publish (origin : Topic) (body : Bytes) (route : String) (b : Broker) :
    Fits b (publish origin body route b).2 topic := by
  intro state' hfind' hpos
  rw [← backlog_opened b origin topic]
  exact Fits.of_evolves (publish_evolves origin body route b) state' hfind' hpos

theorem fits_deadLetter (source : Topic) (message : Held) (b : Broker) :
    Fits b (deadLetter source message b).2 topic :=
  .of_evolves (deadLetterVia_evolves (enqueueLocked_evolves _) source message b).1

theorem backlog_ensureTopic (declared : Topic) (options : TopicOptions) (b : Broker) :
    (ensureTopic declared options b).2.backlog topic = b.backlog topic := by
  rw [backlog, waitingAt_ensureTopic, backlog]

theorem backlog_purge (purged : Topic) (b : Broker) :
    (purge purged b).2.backlog topic ≤ b.backlog topic := by
  simp only [Broker.purge, Exec.get_bind]
  cases hfind : b.find purged with
  | none => exact Nat.le_refl _
  | some state =>
      have hafter : (b.purged purged state).find topic =
          (b.write purged { state with messages := [] }).find topic := rfl
      change (b.purged purged state).backlog topic ≤ b.backlog topic
      by_cases heq : purged = topic
      · subst heq
        rw [backlog_of_find (hafter.trans (find_write_self b purged _))]
        exact Nat.zero_le _
      · exact (backlog_congr (hafter.trans (find_write_of_ne b heq _))).le

/-- The head of a topic is handed out. -/
theorem backlog_handedOut {i : Nat} {t : Topic} {state : TopicState} {message : Held}
    {rest : List Held} (hfind : b.find t = some state)
    (hmessages : state.messages = message :: rest) :
    b.backlog topic = (b.handedOut i t state message rest).backlog topic +
      if t = topic then 1 else 0 := by
  by_cases heq : t = topic
  · subst heq
    have hafter : (b.handedOut i t state message rest).find t =
        some { state with messages := rest } := by
      rw [handedOut, find_log, find_write_self]
    rw [if_pos rfl, backlog_of_find hafter, backlog_of_find hfind, hmessages, List.length_cons]
  · have hafter : (b.handedOut i t state message rest).find topic = b.find topic := by
      rw [handedOut, find_log, find_write_of_ne _ heq]
    rw [if_neg heq, backlog_congr hafter, Nat.add_zero]

theorem backlog_pushFront (b : Broker) (t topic : Topic) (message : Held) :
    (b.pushFront t message).backlog topic = b.backlog topic + if t = topic then 1 else 0 := by
  by_cases heq : t = topic
  · subst heq
    have hafter := find_pushFront b t t message
    rw [if_pos rfl] at hafter
    rw [if_pos rfl, backlog_of_find hafter, List.length_cons, backlog, waitingAt]
  · rw [if_neg heq, Nat.add_zero]
    exact backlog_congr (by rw [find_pushFront, if_neg heq])

theorem backlog_putBackAll (b : Broker) (i : Nat) (t topic : Topic) (messages : List Held) :
    (b.putBackAll i t messages).backlog topic =
      b.backlog topic + if t = topic then messages.length else 0 := by
  induction messages with
  | nil => simp [putBackAll]
  | cons message rest ih =>
      have hback : b.putBackAll i t (message :: rest) =
          (b.putBackAll i t rest).putBackOne i t message := rfl
      have hone : ((b.putBackAll i t rest).putBackOne i t message).backlog topic =
          ((b.putBackAll i t rest).pushFront t
            { message with redelivered := true }).backlog topic := rfl
      rw [hback, hone, backlog_pushFront, ih]
      split
      · rw [List.length_cons, Nat.add_assoc]
      · rfl

end Fits

end Broker

namespace System

open Broker

/-- The deliveries of the topic that are out. -/
def heldAt (topic : Topic) (s : System) : Nat := s.transports.countP (·.holdsOf topic)

/-- Each transport has one of them at most. -/
theorem heldAt_le (topic : Topic) (s : System) : s.heldAt topic ≤ s.transports.length :=
  List.countP_le_length

theorem heldAt_set {s : System} {b' : Broker} {i : Nat} {t t' : InMemoryTransport} {topic : Topic}
    (hlookup : s.transports[i]? = some t) :
    heldAt topic ⟨b', s.transports.set i t'⟩ + t.heldOf topic =
      s.heldAt topic + t'.heldOf topic := by
  obtain ⟨hlt, hget⟩ := List.getElem?_eq_some_iff.mp hlookup
  have hpart : t.heldOf topic ≤ s.heldAt topic := by
    unfold heldOf heldAt
    split
    · next hholds =>
        exact List.countP_pos_iff.mpr ⟨t, List.mem_of_getElem? hlookup, hholds⟩
    · exact Nat.zero_le _
  have hcount : heldAt topic ⟨b', s.transports.set i t'⟩ =
      s.heldAt topic - t.heldOf topic + t'.heldOf topic := by
    rw [heldAt, List.countP_set hlt, hget]
    rfl
  rw [hcount, Nat.add_right_comm, Nat.sub_add_cancel hpart]

/-- What waits at the topic and what is out of it. -/
def load (topic : Topic) (s : System) : Nat := s.broker.backlog topic + s.heldAt topic

/-- If the topic is bounded, its load has not grown, or it has not grown past the limit
by more than what was out. -/
def Loads (topic : Topic) (s s' : System) : Prop :=
  ∀ state', s'.broker.find topic = some state' → 0 < state'.options.maxLength →
    s'.load topic ≤ max (s.load topic) (state'.options.maxLength + s.heldAt topic)

section Step

variable {s : System} {i : Nat} {t t' : InMemoryTransport} {b' : Broker} {topic : Topic}

/-- Nothing was taken, and the topic was filled up at most. -/
theorem Loads.of_fits (hlookup : s.transports[i]? = some t) (hfits : Fits s.broker b' topic)
    (hheld : t'.heldOf topic ≤ t.heldOf topic) :
    Loads topic s ⟨b', s.transports.set i t'⟩ := by
  intro state' hfind' hpos
  have hset : heldAt topic ⟨b', s.transports.set i t'⟩ + t.heldOf topic =
      s.heldAt topic + t'.heldOf topic := heldAt_set hlookup
  have hbacklog := hfits state' hfind' hpos
  simp only [load]
  omega

/-- Messages moved between the topic and the transport, none were added. -/
theorem Loads.of_moved (hlookup : s.transports[i]? = some t)
    (hmoved : b'.backlog topic + t'.heldOf topic ≤ s.broker.backlog topic + t.heldOf topic) :
    Loads topic s ⟨b', s.transports.set i t'⟩ := by
  intro state' _ _
  have hset : heldAt topic ⟨b', s.transports.set i t'⟩ + t.heldOf topic =
      s.heldAt topic + t'.heldOf topic := heldAt_set hlookup
  simp only [load]
  omega

/-- A disposition that was carried out; the transport is not busy afterwards if the
message was put back. -/
theorem Loads.of_performed (hlookup : s.transports[i]? = some t) (entry : Entry)
    (message : Held) (d : Disposition) (hbusy : t.busy) (htopic : t'.topic = t.topic)
    (hfree : d = .requeue → ¬ t'.busy) :
    Loads topic s ⟨(s.broker.log entry).performed t.topic message d, s.transports.set i t'⟩ := by
  have hheld : t'.heldOf topic ≤ t.heldOf topic := heldOf_mono htopic fun _ => hbusy
  cases d with
  | requeue =>
      refine Loads.of_moved hlookup ?_
      have hback : ((s.broker.log entry).performed t.topic message .requeue).backlog topic =
          (s.broker.log entry).backlog topic + if t.topic = topic then 1 else 0 :=
        backlog_pushFront _ _ _ _
      rw [hback, heldOf_of_not_busy (hfree rfl), Nat.add_zero]
      refine Nat.add_le_add_left ?_ _
      split
      · next heq => rw [← heq, heldOf_of_busy hbusy]
      · exact Nat.zero_le _
  | reject =>
      refine Loads.of_fits hlookup ?_ hheld
      exact fits_deadLetter t.topic message (s.broker.log entry)
  | ack => exact Loads.of_fits hlookup (.of_find rfl) hheld
  | deferred => exact Loads.of_fits hlookup (.of_find rfl) hheld

/-- One action, if it is no `settle` that requeues a delivery from inside its handler. -/
theorem loads_step (hstanding : Standing s) {a : Action} (houtside : SettlesOutside s a) :
    Loads topic s (s.step a) := by
  have heffect := step_effect s a
  generalize s.step a = s' at heffect ⊢
  cases heffect with
  | nothing => exact fun _ _ _ => le_max_left _ _
  | created =>
      intro _ _ _
      have hnew : holdsOf topic {} = false := by simp [holdsOf, busy]
      rw [load, heldAt, List.countP_append, List.countP_singleton, hnew]
      exact le_max_left _ _
  | @site i t t' b' haction hlookup hsite =>
      have ht : t ∈ s.transports := List.mem_of_getElem? hlookup
      have htidy := hstanding.tidy t ht
      have hkept : ∀ {c : Broker} {u : InMemoryTransport}, u.topic = t.topic →
          u.outstanding = t.outstanding → (u.handling = t.handling ∨ u.handling = none) →
          Fits s.broker c topic → Loads topic s ⟨c, s.transports.set i u⟩ :=
        fun htopic houtstanding hhandling hfits =>
          .of_fits hlookup hfits (heldOf_mono htopic (busy_of_kept houtstanding hhandling))
      cases hsite with
      | quiet hsame houtstanding hhandling =>
          exact hkept hsame.topic houtstanding hhandling (.of_find rfl)
      | declaredForensic source options hsame _ houtstanding hhandling =>
          exact hkept hsame.topic houtstanding (.inl hhandling)
            (.of_backlog_le (backlog_ensureTopic _ _ _).le)
      | declared source options _ hsame houtstanding hhandling =>
          exact hkept hsame.topic houtstanding (.inl hhandling)
            (.of_backlog_le (backlog_ensureTopic _ _ _).le)
      | published origin payload options _ _ hsame houtstanding hhandling =>
          exact hkept hsame.topic houtstanding (.inl hhandling) (fits_publish _ _ _ _)
      | subscribed source hunused =>
          obtain ⟨hempty, hnone⟩ := htidy.unsubscribed hunused
          refine Loads.of_fits hlookup (.of_find rfl) (Eq.trans_le ?_ (Nat.zero_le _))
          exact heldOf_of_not_busy (not_busy hempty hnone)
      | purged source =>
          exact hkept rfl rfl (.inl rfl) (.of_backlog_le (backlog_purge source _))
      | delivered state message rest _ hempty hidle hfind hmessages hsame =>
          refine Loads.of_moved hlookup ?_
          rw [heldOf_of_not_busy (not_busy hempty hidle), Nat.add_zero,
            backlog_handedOut (i := i) hfind hmessages]
          refine Nat.add_le_add_left ?_ _
          split
          · exact heldOf_le_one _ _
          · next hne => rw [heldOf_of_ne (hsame.topic ▸ hne)]
      | handled message d hd hmessage hsame houtstanding hhandling =>
          refine Loads.of_performed hlookup _ message d (.inr (by rw [hmessage, Option.isSome_some]))
            hsame.topic fun _ => not_busy ?_ hhandling
          rw [houtstanding]
          rcases htidy.handling message hmessage with hempty | hfound
          · exact isEmpty_erase_of_isEmpty hempty _
          · exact htidy.isEmpty_erase hfound
      | settled tag message d hsettle hd hmessage hsame houtstanding hhandling =>
          refine Loads.of_performed hlookup _ message d (.inl (isEmpty_of_getElem? hmessage))
            hsame.topic fun hrequeue => not_busy ?_ ?_
          · rw [houtstanding]
            exact htidy.isEmpty_erase hmessage
          · rw [hsettle, hrequeue] at houtside
            rw [hhandling]
            exact houtside t hlookup
      | left hidle houtstanding hhandling =>
          refine Loads.of_moved hlookup ?_
          rw [heldOf_of_not_busy (not_busy houtstanding hhandling), Nat.add_zero,
            backlog_putBackAll]
          refine Nat.add_le_add_left ?_ _
          split
          · next heq =>
              subst heq
              rcases htidy.unresolved_cases with hempty | ⟨message, hmessage⟩
              · rw [unresolved_of_isEmpty hempty]
                exact Nat.zero_le _
              · rw [htidy.unresolved_of_getElem? hmessage,
                  heldOf_of_busy (.inl (isEmpty_of_getElem? hmessage))]
                exact Nat.le_refl _
          · exact Nat.zero_le _

end Step

/-- What waits at a bounded topic and what is out of it exceed its limit by `most` at
most. -/
def WithinOvershoot (topic : Topic) (most : Nat) (s : System) : Prop :=
  ∀ state, s.broker.find topic = some state → 0 < state.options.maxLength →
    state.messages.length + s.heldAt topic ≤ state.options.maxLength + most

theorem withinOvershoot_iff {s : System} {topic : Topic} {most : Nat} :
    s.WithinOvershoot topic most ↔ ∀ state, s.broker.find topic = some state →
      0 < state.options.maxLength → s.load topic ≤ state.options.maxLength + most := by
  refine forall₂_congr fun state hfind => ?_
  rw [load, backlog_of_find hfind]

theorem withinOvershoot_step {s : System} {a : Action} {topic : Topic} {most : Nat}
    (hstanding : Standing s) (houtside : SettlesOutside s a) (hpeak : s.heldAt topic ≤ most)
    (h : s.WithinOvershoot topic most) : (s.step a).WithinOvershoot topic most := by
  rw [withinOvershoot_iff] at h ⊢
  intro state' hfind' hpos
  have hloads : (s.step a).load topic ≤
      max (s.load topic) (state'.options.maxLength + s.heldAt topic) :=
    loads_step hstanding houtside state' hfind' hpos
  cases hfind : s.broker.find topic with
  | none =>
      -- the topic is new, and what waits there has come under its limit
      have hnothing : s.load topic = s.heldAt topic := by
        rw [load, backlog, waitingAt, hfind]
        exact Nat.zero_add _
      omega
  | some state =>
      have hkeeps := hstanding.extends a topic state.options (optionsOf_of_find hfind)
      have hsame : state'.options = state.options :=
        Option.some.inj ((optionsOf_of_find hfind').symm.trans hkeeps)
      have hbefore := h state hfind (hsame ▸ hpos)
      rw [hsame] at hloads ⊢
      omega

theorem WithinOvershoot.mono {s : System} {topic : Topic} {most most' : Nat}
    (h : s.WithinOvershoot topic most) (hle : most ≤ most') : s.WithinOvershoot topic most' :=
  fun state hfind hpos => (h state hfind hpos).trans (Nat.add_le_add_left hle _)

theorem withinOvershoot_init (topic : Topic) (most : Nat) :
    machine.init.WithinOvershoot topic most :=
  fun state hfind => absurd hfind (by simp [machine, Broker.find])

/-- No transport ever disappears from the list. -/
theorem length_transports_step (s : System) (a : Action) :
    s.transports.length ≤ (s.step a).transports.length := by
  have heffect := step_effect s a
  generalize s.step a = s' at heffect ⊢
  cases heffect with
  | nothing => exact Nat.le_refl _
  | created => simp
  | site haction hlookup hsite => simp

/-- In every run in which no delivery is requeued through `settle` from inside its own
handler: while at most `most` deliveries of a topic are out at a time, at most that many
more wait there than its limit, in every state; and there are never more of them than
there are transports. -/
theorem overshoot_bounded (actions : List Action) (topic : Topic)
    (houtside : machine.Guarded SettlesOutside actions) :
    (∀ most, machine.Always (fun s => s.heldAt topic ≤ most) actions →
      machine.Always (WithinOvershoot topic most) actions) ∧
    machine.Always (fun s => s.WithinOvershoot topic s.transports.length) actions := by
  constructor
  · intro most hpeak
    have hkeeps : machine.Always (fun s => Standing s ∧ s.WithinOvershoot topic most) actions := by
      refine Machine.AlwaysFrom.of_always_guarded (fun s a hheld hsettles h => ?_)
        ⟨standing_init, withinOvershoot_init topic most⟩ hpeak houtside
      exact ⟨h.1.step a, withinOvershoot_step h.1 hsettles hheld h.2⟩
    exact hkeeps.mono fun s h => h.2
  · have hkeeps : machine.Always
        (fun s => Standing s ∧ s.WithinOvershoot topic s.transports.length) actions := by
      refine Machine.AlwaysFrom.of_guarded (fun s a h hsettles => ?_)
        ⟨standing_init, withinOvershoot_init topic _⟩ houtside
      have hnext := withinOvershoot_step h.1 hsettles (heldAt_le topic s) h.2
      exact ⟨h.1.step a, hnext.mono (length_transports_step s a)⟩
    exact hkeeps.mono fun s h => h.2

/-- Two workers take the only message of a topic that retains one, each time somebody
sends another, and both give theirs back. -/
def refilledTwiceRun : List Action :=
  [.create, .connect 0, .create, .connect 1,
    .ensureTopic 0 "jobs" { maxLength := 1, deadLetter := false }, .ensureTopicSource 0,
    .subscribe 0 "jobs" true, .subscribe 1 "jobs" true,
    .send 0 "jobs" [1] { durable := false }, .pump 0,
    .send 0 "jobs" [2] { durable := false }, .pump 1,
    .send 0 "jobs" [3] { durable := false },
    .handlerReturns 0 (.returned .requeue), .handlerReturns 1 (.returned .requeue)]

/-- Three messages then wait, which is as many as the two workers allow. -/
theorem overshoot_bounded_refilledTwiceRun :
    (machine.run refilledTwiceRun).WithinOvershoot "jobs" 2 ∧
      ((machine.run refilledTwiceRun).broker.find "jobs").map
        (fun state => (state.options.maxLength, state.messages.length)) = some (1, 1 + 2) :=
  ⟨((overshoot_bounded refilledTwiceRun "jobs" (by decide +kernel)).1 2 (by decide +kernel)).last,
    by decide +kernel⟩

end System

end Motus.InMemory
