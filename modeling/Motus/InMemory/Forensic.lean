import Motus.InMemory.Routing
import Motus.InMemory.Writes

set_option autoImplicit false

/-!
# What a forensic destination holds

Four operations dead-letter a message of a topic, on different paths, and all of them
end in one bounded queue.  `failures` reads off the state and the call which messages
of a topic that is; `Records` says that a queue holds the first of them.

An event is counted when it finds the forensic destination.  A topic that a send created
has none until somebody declares it: a `Reject` of one of its messages throws before that
and moves nothing (`deadLetter_unprovisioned`).
-/

namespace Motus.InMemory

open Motus.Foundation Motus.Transport

namespace TopicState

/-- The queue holds the first of these bodies, none of them flagged as redelivered. -/
structure Records (bodies : List Bytes) (state : TopicState) : Prop where
  first : state.messages.map (·.body) = bodies.take kForensicMaxLength
  fresh : ∀ m ∈ state.messages, m.redelivered = false

/-- A forensic destination keeps what it is offered while it has room, and refuses it
afterwards. -/
theorem Records.offeredTo {bodies : List Bytes} {state : TopicState} (h : Records bodies state)
    {source : Topic} (hoptions : Broker.agrees state.options (forensicTopicOptions source) = true)
    {message : Held} (hflag : message.redelivered = false) :
    Records (bodies ++ [message.body]) (state.offeredTo message) := by
  have hlimit : state.options.maxLength = kForensicMaxLength ∧
      state.options.overflow = .rejectPublish := by
    simp only [Broker.agrees, forensicTopicOptions, Bool.and_eq_true, beq_iff_eq] at hoptions
    exact ⟨hoptions.1.2, hoptions.2⟩
  have hlength := congrArg List.length h.first
  rw [List.length_map, List.length_take] at hlength
  unfold TopicState.offeredTo
  cases hfull : state.full with
  | true =>
      -- the queue holds as many as it may, so one body more changes nothing
      rw [if_pos rfl, hlimit.2]
      refine ⟨?_, h.fresh⟩
      have hreached : kForensicMaxLength ≤ bodies.length := by
        simp only [TopicState.full, hlimit.1, Bool.and_eq_true, decide_eq_true_eq] at hfull
        omega
      rw [h.first, List.take_append_of_le_length hreached]
  | false =>
      rw [if_neg Bool.false_ne_true]
      have hroom : bodies.length < kForensicMaxLength := by
        have hpos : 0 < kForensicMaxLength := by decide
        simp only [TopicState.full, hlimit.1, hpos, decide_true, Bool.true_and,
          decide_eq_false_iff_not] at hfull
        omega
      refine ⟨?_, fun m hm => ?_⟩
      · rw [List.map_append, h.first, List.take_of_length_le hroom.le, List.take_of_length_le]
        · rfl
        · rw [List.length_append, List.length_singleton]
          exact hroom
      · rcases List.mem_append.mp hm with hm | hm
        · exact h.fresh m hm
        · rw [List.mem_singleton.mp hm]
          exact hflag

/-- What is displaced depends on the body that is offered only. -/
theorem map_body_displaced (state : TopicState) {m m' : Held} (hbody : m.body = m'.body) :
    (state.displaced m).map (·.body) = (state.displaced m').map (·.body) := by
  unfold displaced
  split
  · cases state.options.overflow with
    | dropHead => rfl
    | rejectPublish => rfl
    | rejectPublishDlx => exact congrArg some hbody
  · rfl

end TopicState

namespace Broker

/-- A forensic destination overflows into nothing. -/
theorem overflows_of_agrees {state : TopicState} {source : Topic}
    (h : agrees state.options (forensicTopicOptions source) = true) :
    state.overflows = false := by
  simp only [agrees, forensicTopicOptions, Bool.and_eq_true, beq_iff_eq] at h
  simp [TopicState.overflows, h]

/-- Every topic that dead-letters and was not made by a send has its forensic
destination as `ensureTopic` declares it. -/
def Forensic (b : Broker) : Prop :=
  ∀ t options, b.optionsOf t = some options → options.deadLetter = true → options ≠ {} →
    b.ForensicReady t

/-- A topic that overflows was declared with its forensic destination. -/
theorem Forensic.of_overflows {b : Broker} (h : Forensic b) {topic : Topic} {state : TopicState}
    (hfind : b.find topic = some state) (hover : state.overflows = true) :
    b.ForensicReady topic := by
  simp only [TopicState.overflows, TopicState.full, Bool.and_eq_true, decide_eq_true_eq] at hover
  refine h topic _ (optionsOf_of_find hfind) hover.1.2 fun hdefault => ?_
  have hlimit := hover.1.1.1
  rw [hdefault] at hlimit
  exact absurd hlimit (by decide)

/-- A topic was offered a message: what became of it and of its forensic destination,
and that nothing else changed. -/
structure Enqueued (b : Broker) (topic : Topic) (state : TopicState) (message : Held)
    (b' : Broker) : Prop where
  self : b'.find topic = some (state.offeredTo message)
  forensic : ∀ moved, state.displaced message = some moved →
    b'.find (deadLetterTopic topic) = (b.find (deadLetterTopic topic)).map
      (·.offeredTo (b.renumbered moved))
  others : ∀ t, t ≠ topic → (t = deadLetterTopic topic → state.displaced message = none) →
    b'.find t = b.find t

theorem enqueueLocked_enqueued {b : Broker} (hforensic : Forensic b) {topic : Topic}
    {state : TopicState} (hfind : b.find topic = some state) (message : Held) :
    ∃ b', enqueueLocked b.topics.size topic message b = (.ok state.accepts, b') ∧
      Enqueued b topic state message b' := by
  have htopic : (b.find topic).isSome = true := by rw [hfind, Option.isSome_some]
  cases hover : state.overflows with
  | false =>
      obtain ⟨fuel, hfuel⟩ := exists_fuel htopic
      obtain ⟨b', hrun, hbecomes⟩ := enqueueLocked_alone hfind hover fuel message
      have hnone : state.displaced message = none := by
        rw [TopicState.displaced, hover, if_neg Bool.false_ne_true]
      refine ⟨b', by rw [hfuel, hrun], hbecomes.self, fun moved hmoved => ?_,
        fun t ht _ => hbecomes.others t ht⟩
      rw [hnone] at hmoved
      exact absurd hmoved (by simp)
  | true =>
      obtain ⟨stored, hstored, hagrees⟩ := hforensic.of_overflows hfind hover
      obtain ⟨forensic, hfound, rfl⟩ := Option.map_eq_some_iff.mp hstored
      obtain ⟨fuel, hfuel⟩ := exists_fuel_two (deadLetterTopic_ne topic).symm htopic
        (by rw [hfound, Option.isSome_some])
      obtain ⟨moved, b', hmoved, hrun, hself, hmovedTo, hothers, -⟩ :=
        enqueueLocked_overflows hfind hover hfound (overflows_of_agrees hagrees) fuel message
      refine ⟨b', by rw [hfuel, hrun], hself, fun m hm => ?_, fun t ht hnone => ?_⟩
      · obtain rfl := Option.some.inj (hmoved.symm.trans hm)
        rw [hmovedTo, hfound]
        rfl
      · refine hothers t ht fun heq => ?_
        rw [hnone heq] at hmoved
        exact absurd hmoved (by simp)

theorem Forensic.of_sameTopics {b b' : Broker} (h : Forensic b) (hsame : SameTopics b b') :
    Forensic b' := by
  intro t options hoptions hdead hmade
  rw [hsame t] at hoptions
  exact (h t options hoptions hdead hmade).mono hsame.extends

theorem Forensic.touch {b : Broker} (h : Forensic b) (topic : Topic) :
    Forensic (b.touch topic) := by
  have hextends : Extends b (b.touch topic) := by
    intro t options ht
    rw [optionsOf, find_touch]
    split
    · next heq =>
        subst heq
        obtain ⟨state, hfind, rfl⟩ := Option.map_eq_some_iff.mp ht
        rw [hfind]
        rfl
    · exact ht
  intro t options hoptions hdead hmade
  rw [optionsOf, find_touch] at hoptions
  split at hoptions
  · next heq =>
      subst heq
      cases hfind : b.find topic with
      | none =>
          rw [hfind] at hoptions
          exact absurd (Option.some.inj hoptions).symm hmade
      | some state =>
          rw [hfind] at hoptions
          refine (h topic options ?_ hdead hmade).mono hextends
          rw [optionsOf_of_find hfind]
          exact hoptions
  · exact (h t options hoptions hdead hmade).mono hextends

theorem Enqueued.settings {b b' : Broker} {topic : Topic} {state : TopicState} {message : Held}
    (h : Enqueued b topic state message b') (hfind : b.find topic = some state) (t : Topic) :
    b'.settings t = b.settings t := by
  by_cases heq : t = topic
  · subst heq
    rw [settings_of_find h.self, settings_of_find hfind, TopicState.options_offeredTo,
      TopicState.binding_offeredTo]
  · by_cases hforensic : t = deadLetterTopic topic
    · subst hforensic
      cases hmoved : state.displaced message with
      | none =>
          unfold Broker.settings
          rw [h.others _ heq fun _ => hmoved]
      | some moved =>
          unfold Broker.settings
          rw [h.forensic moved hmoved, Option.map_map]
          congr 1
          funext forensic
          simp
    · unfold Broker.settings
      rw [h.others t heq fun h => absurd h hforensic]

/-! ## What a forensic destination receives -/

/-- The bodies that `source` has no room for when it is offered a message. -/
def overflowed (b : Broker) (source : Topic) (message : Held) : List Bytes :=
  (((b.find source).bind (·.displaced message)).map (·.body)).toList

theorem overflowed_congr {b b' : Broker} {source : Topic}
    (hfind : b'.find source = b.find source) {m m' : Held} (hbody : m.body = m'.body) :
    b'.overflowed source m = b.overflowed source m' := by
  rw [overflowed, overflowed, hfind]
  cases b.find source with
  | none => rfl
  | some state => rw [Option.bind_some, Option.bind_some, TopicState.map_body_displaced _ hbody]

/-- The failures of `source` when a message of `topic` is rejected: the message itself,
or what `source` has no room for when it is the forensic destination of `topic`.  Without
that destination the rejection throws and there is none. -/
def rejected (b : Broker) (source topic : Topic) (message : Held) : List Bytes :=
  if b.deadLetters topic = true ∧ (b.find (deadLetterTopic topic)).isSome = true then
    if topic = source then [message.body]
    else if deadLetterTopic topic = source then b.overflowed source message
    else []
  else []

/-- A rejection that finds no forensic destination throws, changes nothing, and is not
counted. -/
theorem deadLetter_unprovisioned {b : Broker} {topic : Topic} (hdead : b.deadLetters topic = true)
    (hmissing : b.find (deadLetterTopic topic) = none) (source : Topic) (message : Held) :
    (∃ what, deadLetter topic message b = (.error (.logicError what), b)) ∧
      b.rejected source topic message = [] := by
  refine ⟨⟨_, deadLetterVia_missing hdead hmissing message⟩, ?_⟩
  rw [rejected, hmissing, if_neg (by simp)]

/-- The topics that a send offers a copy to. -/
def receivers (b : Broker) (topic : Topic) (route : String) : List Topic :=
  let origin := (b.find topic).getD {}
  if origin.options.group = "" then [topic]
  else b.destinations origin.options.group ((b.groups[origin.options.group]?).getD .exact)
    (if route = "" then origin.binding else route)

/-- The forensic destination of `source`, if it exists, was offered these bodies. -/
structure Receives (source : Topic) (bodies : List Bytes) (b b' : Broker) : Prop where
  absent : b.find (deadLetterTopic source) = none →
    bodies = [] ∧ b'.find (deadLetterTopic source) = none
  present : ∀ state, b.find (deadLetterTopic source) = some state →
    ∃ state', b'.find (deadLetterTopic source) = some state' ∧ state'.options = state.options ∧
      (agrees state.options (forensicTopicOptions source) = true →
        ∀ earlier, state.Records earlier → state'.Records (earlier ++ bodies))

section Receives

variable {source : Topic} {bodies : List Bytes} {b b' b'' : Broker}

theorem Receives.of_find (h : b'.find (deadLetterTopic source) = b.find (deadLetterTopic source)) :
    Receives source [] b b' :=
  ⟨fun hnone => ⟨rfl, h.trans hnone⟩, fun state hstate => ⟨state, h.trans hstate, rfl,
    fun _ earlier hearlier => by rwa [List.append_nil]⟩⟩

theorem Receives.trans {bodies' : List Bytes} (h : Receives source bodies b b')
    (h' : Receives source bodies' b' b'') : Receives source (bodies ++ bodies') b b'' := by
  refine ⟨fun hnone => ?_, fun state hstate => ?_⟩
  · obtain ⟨rfl, hnone'⟩ := h.absent hnone
    exact h'.absent hnone'
  · obtain ⟨state', hstate', hoptions, hrecords⟩ := h.present state hstate
    obtain ⟨state'', hstate'', hoptions', hrecords'⟩ := h'.present state' hstate'
    refine ⟨state'', hstate'', hoptions'.trans hoptions, fun hagrees earlier hearlier => ?_⟩
    rw [← List.append_assoc]
    exact hrecords' (hoptions.symm ▸ hagrees) _ (hrecords hagrees _ hearlier)

/-- The same, seen from a broker with the same forensic destination. -/
theorem Receives.of_eq {c : Broker} (h : Receives source bodies b b')
    (hfind : c.find (deadLetterTopic source) = b.find (deadLetterTopic source)) :
    Receives source bodies c b' :=
  ⟨fun hnone => h.absent (hfind.symm.trans hnone),
    fun state hstate => h.present state (hfind.symm.trans hstate)⟩

/-- It exists and was offered one message. -/
theorem Receives.of_offeredTo {message : Held} (hflag : message.redelivered = false)
    {state : TopicState} (hfind : b.find (deadLetterTopic source) = some state)
    (hfind' : b'.find (deadLetterTopic source) = some (state.offeredTo message)) :
    Receives source [message.body] b b' := by
  refine ⟨fun hnone => absurd (hnone.symm.trans hfind) (by simp), fun st hst => ?_⟩
  obtain rfl := Option.some.inj (hfind.symm.trans hst)
  exact ⟨_, hfind', TopicState.options_offeredTo _ _,
    fun hagrees earlier hearlier => hearlier.offeredTo hagrees hflag⟩

/-- Another topic was offered a message. -/
theorem Enqueued.receives {topic : Topic} {state : TopicState} {message : Held}
    (h : Enqueued b topic state message b') (hforensic : Forensic b)
    (hfind : b.find topic = some state) (hne : topic ≠ deadLetterTopic source) :
    Receives source (if topic = source then b.overflowed source message else []) b b' := by
  split
  · next heq =>
      subst heq
      rw [overflowed, hfind, Option.bind_some]
      cases hmoved : state.displaced message with
      | none => exact .of_find (h.others _ hne.symm fun _ => hmoved)
      | some moved =>
          have hover : state.overflows = true := by
            by_contra hnot
            rw [TopicState.displaced, if_neg hnot] at hmoved
            exact absurd hmoved (by simp)
          obtain ⟨stored, hstored, -⟩ := hforensic.of_overflows hfind hover
          obtain ⟨forensic, hfound, -⟩ := Option.map_eq_some_iff.mp hstored
          have hreceived := h.forensic moved hmoved
          rw [hfound] at hreceived
          have hreceives : Receives topic [(b.renumbered moved).body] b b' :=
            .of_offeredTo rfl hfound hreceived
          exact hreceives
  · next hother =>
      refine .of_find (h.others _ hne.symm fun heq => ?_)
      exact absurd (deadLetterTopic_injective heq).symm hother

/-- A message of `topic` is rejected. -/
theorem deadLetter_receives (hforensic : Forensic b) {topic : Topic}
    (hne : topic ≠ deadLetterTopic source) (message : Held) :
    Receives source (b.rejected source topic message) b (deadLetter topic message b).2 := by
  simp only [rejected, deadLetter, deadLetterLocked, Exec.get_bind]
  cases hdead : b.deadLetters topic with
  | false =>
      rw [deadLetterVia_closed hdead, if_neg (by simp)]
      exact .of_find rfl
  | true =>
      cases hfound : b.find (deadLetterTopic topic) with
      | none =>
          rw [deadLetterVia_missing hdead hfound, if_neg (by simp)]
          exact .of_find rfl
      | some state =>
          have hlogged : (b.deadLettered topic message).find (deadLetterTopic topic) =
              some state := hfound
          obtain ⟨b', hrun, henqueued⟩ := enqueueLocked_enqueued
            (b := b.deadLettered topic message) (hforensic.of_sameTopics (.of_find fun _ => rfl))
            hlogged (b.renumbered message)
          have hsize : (b.deadLettered topic message).topics.size = b.topics.size := rfl
          rw [hsize] at hrun
          rw [deadLetterVia_forward hdead hfound, hrun, if_pos ⟨rfl, by simp⟩]
          split
          · next heq =>
              subst heq
              have hreceives : Receives topic [(b.renumbered message).body] b b' :=
                .of_offeredTo rfl hfound henqueued.self
              exact hreceives
          · next hother =>
              have hreceives : Receives source _ _ _ := henqueued.receives
                (hforensic.of_sameTopics (.of_find fun _ => rfl)) hlogged
                fun heq => hother (deadLetterTopic_injective heq)
              have hsame : (b.deadLettered topic message).overflowed source
                  (b.renumbered message) = b.overflowed source message :=
                overflowed_congr rfl rfl
              rw [hsame] at hreceives
              exact hreceives.of_eq rfl

/-- Its own offers do not change what another topic of a group has no room for: only a
forensic destination is changed by them, and it overflows into nothing. -/
theorem Enqueued.overflowed_eq {topic : Topic} {state : TopicState} {message : Held}
    (h : Enqueued b topic state message b') (hforensic : Forensic b)
    (hfind : b.find topic = some state) (hne : source ≠ topic) (m : Held) :
    b'.overflowed source m = b.overflowed source m := by
  by_cases hsame : source = deadLetterTopic topic → state.displaced message = none
  · exact overflowed_congr (h.others source hne hsame) rfl
  · obtain ⟨heq, hmoved⟩ := Classical.not_imp.mp hsame
    obtain ⟨moved, hmoved⟩ := Option.ne_none_iff_exists'.mp hmoved
    have hover : state.overflows = true := by
      by_contra hnot
      rw [TopicState.displaced, if_neg hnot] at hmoved
      exact absurd hmoved (by simp)
    obtain ⟨stored, hstored, hagrees⟩ := hforensic.of_overflows hfind hover
    obtain ⟨forensic, hfound, rfl⟩ := Option.map_eq_some_iff.mp hstored
    have hnone : ∀ st : TopicState, agrees st.options (forensicTopicOptions topic) = true →
        st.displaced m = none := by
      intro st hst
      rw [TopicState.displaced, overflows_of_agrees hst, if_neg Bool.false_ne_true]
    have hreceived := h.forensic moved hmoved
    rw [hfound, Option.map_some] at hreceived
    rw [overflowed, overflowed, heq, hreceived, hfound, Option.bind_some, Option.bind_some,
      hnone forensic hagrees,
      hnone _ (by rw [TopicState.options_offeredTo]; exact hagrees)]

/-- A topic that exists is offered a copy. -/
theorem offer_enqueued (hforensic : Forensic b) {topic : Topic} {state : TopicState}
    (hfind : b.find topic = some state) (body : Bytes) :
    ∃ b', offer topic body b = (.ok state.accepts, b') ∧
      Enqueued (b.offered topic body) topic state (b.fresh body) b' := by
  obtain ⟨b', hrun, henqueued⟩ := enqueueLocked_enqueued (b := b.offered topic body)
    (hforensic.of_sameTopics (.of_find fun _ => rfl)) hfind (b.fresh body)
  exact ⟨b', hrun, henqueued⟩

/-- The copies that a send into a group offers. -/
theorem offerAll_receives {group : String} {routing : Routing} {key : String} {body : Bytes}
    (hgroup : group ≠ "") (message : Held) (hbody : message.body = body) (names : List Topic)
    (hnodup : names.Nodup) {b : Broker} (hforensic : Forensic b)
    (hfree : ∀ name ∈ names, b.bindsTo group routing key name = true →
      name ≠ deadLetterTopic source) (accepted : Bool) :
    Receives source (if source ∈ names.filter (b.bindsTo group routing key) then
        b.overflowed source message else []) b
      (offerAll group routing key body names accepted b).2 := by
  induction names generalizing b accepted with
  | nil => exact .of_find rfl
  | cons name rest ih =>
      obtain ⟨hname, hnodup⟩ := List.nodup_cons.mp hnodup
      have hrest : ∀ n ∈ rest, b.bindsTo group routing key n = true →
          n ≠ deadLetterTopic source := fun n hn => hfree n (List.mem_cons_of_mem _ hn)
      cases hbound : b.bindsTo group routing key name with
      | false =>
          rw [offerAll_cons_of_not hgroup hbound, List.filter_cons_of_neg (by simp [hbound])]
          exact ih hnodup hforensic hrest accepted
      | true =>
          obtain ⟨state, hfind⟩ := find_of_bindsTo hbound
          obtain ⟨c, hrun, henqueued⟩ := offer_enqueued hforensic hfind body
          have hoffered : Forensic (b.offered name body) :=
            hforensic.of_sameTopics (.of_find fun _ => rfl)
          have hsettings : ∀ t, c.settings t = b.settings t := henqueued.settings hfind
          have hbinds : c.bindsTo group routing key = b.bindsTo group routing key :=
            funext (bindsTo_congr hsettings group routing key)
          have hown : Receives source _ b c := (henqueued.receives hoffered hfind
            (hfree name List.mem_cons_self hbound)).of_eq rfl
          have hothers := ih (b := c) hnodup
            (hforensic.of_sameTopics (sameTopics_of_settings hsettings))
            (fun n hn hb => hrest n hn (by rwa [hbinds] at hb)) (state.accepts && accepted)
          have hsame : (b.offered name body).overflowed source (b.fresh body) =
              b.overflowed source message := overflowed_congr rfl hbody.symm
          rw [offerAll_cons_of_bindsTo hbound, Exec.bind_ok hrun,
            List.filter_cons_of_pos hbound]
          rw [hsame] at hown
          rw [hbinds] at hothers
          by_cases heq : name = source
          · subst heq
            rw [if_pos rfl] at hown
            rw [if_neg fun h => hname (List.mem_of_mem_filter h)] at hothers
            rw [if_pos List.mem_cons_self, ← List.append_nil (overflowed _ _ _)]
            exact hown.trans hothers
          · rw [if_neg heq] at hown
            have hkept : c.overflowed source message = b.overflowed source message :=
              (henqueued.overflowed_eq hoffered hfind (Ne.symm heq) message).trans
                (overflowed_congr rfl rfl)
            rw [hkept] at hothers
            simp only [List.mem_cons, Ne.symm heq, false_or]
            exact hown.trans hothers

/-- A topic that a send creates has room. -/
theorem overflowed_touch (b : Broker) (topic source : Topic) (message : Held) :
    (b.touch topic).overflowed source message = b.overflowed source message := by
  rw [overflowed, overflowed, find_touch]
  split
  · next heq =>
      subst heq
      cases b.find topic with
      | none => rfl
      | some state => rfl
  · rfl

/-- A send that does not reach the forensic destination itself. -/
theorem publish_receives (hforensic : Forensic b) {topic : Topic} {route : String}
    (hfree : deadLetterTopic source ∉ b.receivers topic route) (body : Bytes) :
    Receives source (if source ∈ b.receivers topic route then
        b.overflowed source (b.fresh body) else []) b (publish topic body route b).2 := by
  unfold receivers at hfree ⊢
  simp only [publish, Exec.get_bind]
  split
  · next hgroup =>
      dsimp only at hfree
      rw [if_pos hgroup, List.mem_singleton] at hfree
      have htouched : (b.touch topic).find topic = some ((b.find topic).getD {}) := by
        rw [find_touch, if_pos rfl]
      obtain ⟨b', hrun, henqueued⟩ := offer_enqueued (hforensic.touch topic) htouched body
      have hsource : b.find (deadLetterTopic source) =
          ((b.touch topic).offered topic body).find (deadLetterTopic source) := by
        rw [find_offered, find_touch, if_neg (Ne.symm hfree)]
      have hreceives : Receives source _ b b' := (henqueued.receives
        ((hforensic.touch topic).of_sameTopics (.of_find fun _ => rfl)) htouched
        (Ne.symm hfree)).of_eq hsource
      have hsame : ((b.touch topic).offered topic body).overflowed source
          ((b.touch topic).fresh body) = b.overflowed source (b.fresh body) :=
        (overflowed_congr rfl rfl).trans (overflowed_touch b topic source _)
      rw [hsame] at hreceives
      rw [Exec.set_bind, hrun]
      simp only [List.mem_singleton, @eq_comm _ source topic]
      exact hreceives
  · next hgroup =>
      dsimp only at hfree
      rw [if_neg hgroup] at hfree
      rw [Exec.set_bind]
      have hopened : Forensic { b with
          groups := b.groups.insertIfNew ((b.find topic).getD {}).options.group .exact } :=
        hforensic.of_sameTopics (.of_find fun _ => rfl)
      have hnodup : b.topics.keys.Nodup := b.topics.distinct_keys.imp fun hne heq =>
        hne (Std.LawfulEqCmp.compare_eq_iff_eq.mpr heq)
      have hwalk := offerAll_receives hgroup (b.fresh body) rfl b.topics.keys hnodup hopened
        (fun name hname hbound heq =>
          hfree (heq ▸ List.mem_filter.mpr ⟨hname, hbound⟩)) true
      exact hwalk.of_eq rfl

end Receives

/-! ### What else touches a topic -/

theorem Receives.ensureTopic_of_some {source topic : Topic} {b : Broker}
    (hfound : (b.find (deadLetterTopic source)).isSome = true) (options : TopicOptions) :
    Receives source [] b (ensureTopic topic options b).2 := by
  refine .of_find ?_
  obtain ⟨groups, ⟨hsame, -⟩ | ⟨hnone, hnew⟩⟩ := ensureTopic_apply topic options b
  · rw [hsame]
    rfl
  · rw [hnew, find_write_of_ne]
    · rfl
    · rintro rfl
      rw [hnone] at hfound
      exact absurd hfound (by simp)

theorem find_purge_of_ne (b : Broker) {topic t : Topic} (hne : topic ≠ t) :
    (purge topic b).2.find t = b.find t := by
  simp only [purge, Exec.get_bind]
  cases b.find topic with
  | none => rfl
  | some state => exact find_write_of_ne b hne _

theorem find_putBackAll_of_ne (b : Broker) {topic t : Topic} (hne : topic ≠ t) (i : Nat)
    (messages : List Held) : (b.putBackAll i topic messages).find t = b.find t := by
  induction messages with
  | nil => rfl
  | cons message rest ih =>
      have hback : b.putBackAll i topic (message :: rest) =
          (b.putBackAll i topic rest).putBackOne i topic message := rfl
      rw [hback, putBackOne, find_log, find_pushFront, if_neg hne, ih]

/-- A disposition other than `Reject` changes the topic of its message only. -/
theorem find_performed_of_ne (b : Broker) {topic t : Topic} (hne : topic ≠ t) (message : Held)
    {d : Disposition} (hd : d ≠ .reject) : (b.performed topic message d).find t = b.find t := by
  cases d with
  | ack => rfl
  | deferred => rfl
  | reject => exact absurd rfl hd
  | requeue => rw [performed, find_pushFront, if_neg hne]

theorem Forensic.ensureTopic {b : Broker} (h : Forensic b) (topic : Topic)
    (options : TopicOptions) (hready : options.deadLetter = true → b.ForensicReady topic) :
    Forensic (ensureTopic topic options b).2 := by
  have hextends := extends_ensureTopic topic options b
  intro t stored hstored hdead hmade
  rcases optionsOf_ensureTopic topic options b t with hsame | ⟨rfl, -, hnew⟩
  · rw [hsame] at hstored
    exact (h t stored hstored hdead hmade).mono hextends
  · obtain rfl := Option.some.inj (hnew.symm.trans hstored)
    exact (hready hdead).mono hextends

theorem Forensic.publish {b : Broker} (h : Forensic b) (topic : Topic) (body : Bytes)
    (route : String) : Forensic (publish topic body route b).2 := by
  have hextends := extends_publish topic body route b
  intro t stored hstored hdead hmade
  rw [optionsOf_publish] at hstored
  split at hstored
  · next heq =>
      subst heq
      cases hbefore : b.optionsOf topic with
      | none =>
          rw [hbefore, Option.getD_none] at hstored
          exact absurd (Option.some.inj hstored).symm hmade
      | some options =>
          rw [hbefore, Option.getD_some] at hstored
          obtain rfl := Option.some.inj hstored
          exact (h topic options hbefore hdead hmade).mono hextends
  · exact (h t stored hstored hdead hmade).mono hextends

end Broker

open Broker InMemoryTransport

namespace System

theorem forensic_step {s : System} (hstanding : Standing s) (hgroups : GroupsStand s)
    (h : Forensic s.broker) (a : Action) : Forensic (s.step a).broker := by
  rcases step_writes s a with hsame | ⟨i, t, hlookup, heffect⟩
  · rw [hsame]
    exact h
  · have ht := List.mem_of_getElem? hlookup
    generalize (s.step a).broker = b' at heffect ⊢
    rcases heffect.topics (hstanding.anchored t ht) with
      hsame | ⟨topic, payload, options, -, -, rfl⟩ | ⟨topic, options, -, -, -, -, rfl⟩ |
      ⟨topic, options, -, -, hdeclaring, rfl⟩
    · exact h.of_sameTopics hsame
    · exact h.publish topic payload options.route
    · exact h.ensureTopic _ _ fun hdead => absurd hdead Bool.false_ne_true
    · exact h.ensureTopic topic options (hgroups.declaring t ht topic options hdeclaring)

/-- Every declaration has its group and its forensic destination. -/
structure Provided (s : System) : Prop where
  standing : Standing s
  groups : GroupsStand s
  forensic : Forensic s.broker

theorem provided_init : Provided machine.init :=
  ⟨standing_init, groupsStand_init,
    fun t options hoptions => absurd hoptions (by simp [machine, optionsOf, find])⟩

theorem Provided.step {s : System} (h : Provided s) (a : Action) : Provided (s.step a) :=
  ⟨h.standing.step a, h.groups.step h.standing a, forensic_step h.standing h.groups h.forensic a⟩

theorem always_provided (actions : List Action) : machine.Always Provided actions :=
  .of_step actions (fun _ a h => Provided.step h a) provided_init

/-! ## The failures of a topic -/

/-- The bodies of `source` that a call fails, in order: what a handler or `settle`
rejects, what `source` evicts, and what it refuses and dead-letters. -/
def failures (source : Topic) (s : System) : Action → List Bytes
  | .send i topic payload options =>
      match s.transports[i]? with
      | none => []
      | some t =>
          if t.publishes options = true ∧ source ∈ s.broker.receivers topic options.route then
            s.broker.overflowed source (s.broker.fresh payload)
          else []
  | .handlerReturns i (.returned .reject) =>
      match s.transports[i]? with
      | none => []
      | some t => if t.callable then
          t.handling.toList.flatMap (s.broker.rejected source t.topic) else []
  | .settle i tag .reject =>
      match s.transports[i]? with
      | none => []
      | some t => if t.callable && t.connected then
          (t.outstanding[tag]?).toList.flatMap (s.broker.rejected source t.topic) else []
  | _ => []

/-- The failures of `source` along a list of actions. -/
def allFailures (source : Topic) : System → List Action → List Bytes
  | _, [] => []
  | s, a :: rest => s.failures source a ++ allFailures source (s.step a) rest

/-- No message is sent to the forensic destination of `source`, taken from it by a
consumer or purged from it. -/
def LeavesForensic (source : Topic) (s : System) : Action → Prop
  | .send i topic _ options => ∀ t ∈ s.transports[i]?, t.publishes options = true →
      deadLetterTopic source ∉ s.broker.receivers topic options.route
  | .pump i => ∀ t ∈ s.transports[i]?, t.topic = deadLetterTopic source →
      ∀ state ∈ s.broker.find (deadLetterTopic source), state.messages = []
  | .purgeTopic i topic => ∀ t ∈ s.transports[i]?, t.connected = true →
      topic ≠ deadLetterTopic source
  | _ => True

instance (source : Topic) (s : System) : ∀ a, Decidable (LeavesForensic source s a)
  | .send i topic _ options =>
      inferInstanceAs (Decidable (∀ t ∈ s.transports[i]?, t.publishes options = true →
        deadLetterTopic source ∉ s.broker.receivers topic options.route))
  | .pump i =>
      inferInstanceAs (Decidable (∀ t ∈ s.transports[i]?, t.topic = deadLetterTopic source →
        ∀ state ∈ s.broker.find (deadLetterTopic source), state.messages = []))
  | .purgeTopic i topic =>
      inferInstanceAs (Decidable (∀ t ∈ s.transports[i]?, t.connected = true →
        topic ≠ deadLetterTopic source))
  | .create | .connect _ | .close _ | .destroy _ | .ensureTopic .. | .ensureTopicSource _
  | .subscribe .. | .handlerReturns .. | .settle .. => inferInstanceAs (Decidable True)

/-- The forensic destination of `source` holds the first of these bodies, and nobody
holds a message of it. -/
structure Preserved (source : Topic) (bodies : List Bytes) (s : System) : Prop where
  absent : s.broker.find (deadLetterTopic source) = none → bodies = []
  records : ∀ state, s.broker.find (deadLetterTopic source) = some state →
    agrees state.options (forensicTopicOptions source) = true → state.Records bodies
  unheld : ∀ t ∈ s.transports, t.topic = deadLetterTopic source → ¬ t.busy

section Step

variable {source : Topic} {bodies : List Bytes} {s : System} {a : Action}

/-- A call other than a send or a rejection leaves the forensic destination alone, or
creates it. -/
theorem quiet_receives {i : Nat} {t : InMemoryTransport} {b' : Broker}
    (heffect : BrokerEffect i s.broker t a b') (hlookup : s.transports[i]? = some t)
    (hguard : LeavesForensic source s a)
    (hunheld : t.topic = deadLetterTopic source → ¬ t.busy)
    (hsend : ∀ topic payload options, a ≠ .send i topic payload options)
    (hreject : a ≠ .handlerReturns i (.returned .reject))
    (hsettle : ∀ tag, a ≠ .settle i tag .reject) :
    Receives source [] s.broker b' ∨ s.broker.find (deadLetterTopic source) = none ∧
      ∀ state, b'.find (deadLetterTopic source) = some state → state.messages = [] := by
  have hdeclared : ∀ topic options,
      Receives source [] s.broker (Broker.ensureTopic topic options s.broker).2 ∨
        s.broker.find (deadLetterTopic source) = none ∧
          ∀ state, (Broker.ensureTopic topic options s.broker).2.find (deadLetterTopic source) =
            some state → state.messages = [] := by
    intro topic options
    cases hfound : s.broker.find (deadLetterTopic source) with
    | some state => exact .inl (.ensureTopic_of_some (by rw [hfound, Option.isSome_some]) options)
    | none =>
        refine .inr ⟨rfl, fun state hstate => ?_⟩
        obtain ⟨groups, ⟨hsame, -⟩ | ⟨-, hnew⟩⟩ := ensureTopic_apply topic options s.broker
        · rw [hsame] at hstate
          exact absurd (hfound.symm.trans hstate) (by simp)
        · rw [hnew, find_write] at hstate
          split at hstate
          · rw [← Option.some.inj hstate]
            rfl
          · exact absurd (hfound.symm.trans hstate) (by simp)
  have hkept : ∀ c : Broker, c.find (deadLetterTopic source) =
      s.broker.find (deadLetterTopic source) → Receives source [] s.broker c ∨
        s.broker.find (deadLetterTopic source) = none ∧
          ∀ state, c.find (deadLetterTopic source) = some state → state.messages = [] :=
    fun c hc => .inl (.of_find hc)
  cases heffect with
  | declaredForensic topic options => exact hdeclared _ _
  | declared topic options => exact hdeclared topic options
  | published topic payload options => exact absurd rfl (hsend topic payload options)
  | purged topic hcallable hconnected =>
      exact hkept _ (find_purge_of_ne _ (hguard t hlookup hconnected))
  | delivered state message rest hidle hconnected hhandler hempty hfind hmessages =>
      refine hkept _ (find_write_of_ne _ (fun heq => ?_) _)
      have hnone := hguard t hlookup heq state (heq ▸ hfind)
      rw [hnone] at hmessages
      exact absurd hmessages (by simp)
  | handled message d hd hcallable hmessage =>
      have hother : t.topic ≠ deadLetterTopic source := fun heq =>
        hunheld heq (.inr (by rw [hmessage, Option.isSome_some]))
      exact hkept _ (find_performed_of_ne _ hother _ fun heq => hreject (by rw [heq]))
  | settled tag message d hd hcallable hconnected hmessage =>
      have hother : t.topic ≠ deadLetterTopic source := fun heq =>
        hunheld heq (.inl (isEmpty_of_getElem? hmessage))
      exact hkept _ (find_performed_of_ne _ hother _ fun heq => hsettle tag (by rw [heq]))
  | left a haction hidle =>
      by_cases heq : t.topic = deadLetterTopic source
      · have hempty : t.outstanding.isEmpty = true := by
          by_contra hnot
          exact hunheld heq (.inl (eq_false_of_ne_true hnot))
        rw [unresolved_of_isEmpty hempty]
        exact hkept _ rfl
      · exact hkept _ (find_putBackAll_of_ne _ heq _ _)

/-- A rejection, by a handler or by `settle`, once it has left the record. -/
theorem rejected_receives (hforensic : Forensic s.broker) (entry : Entry) {topic : Topic}
    (hne : topic ≠ deadLetterTopic source) (message : Held) :
    Receives source (s.broker.rejected source topic message) s.broker
      ((s.broker.log entry).performed topic message .reject) := by
  have hlogged : Forensic (s.broker.log entry) := hforensic.of_sameTopics (.of_find fun _ => rfl)
  have hreceives : Receives source _ _ _ := deadLetter_receives hlogged hne message
  exact hreceives.of_eq rfl

/-- A send offers the forensic destination what its source has no room for. -/
theorem send_receives (hforensic : Forensic s.broker) {i : Nat} {topic : Topic} {payload : Bytes}
    {options : SendOptions} (hguard : LeavesForensic source s (.send i topic payload options)) :
    Receives source (s.failures source (.send i topic payload options)) s.broker
      (s.step (.send i topic payload options)).broker := by
  by_cases hpublishes : ∃ t, s.transports[i]? = some t ∧ t.publishes options = true
  · obtain ⟨t, hlookup, hpublishes⟩ := hpublishes
    obtain ⟨stats, hstep⟩ := step_send hlookup hpublishes topic payload
    have hreceives := publish_receives hforensic (hguard t hlookup hpublishes) payload
    simp only [failures, hlookup, hpublishes, true_and]
    rw [hstep]
    exact hreceives
  · have hrefused : ∀ t, s.transports[i]? = some t → t.publishes options = false :=
      fun t hlookup => eq_false_of_ne_true fun h => hpublishes ⟨t, hlookup, h⟩
    have hnone : s.failures source (.send i topic payload options) = [] := by
      simp only [failures]
      cases hlookup : s.transports[i]? with
      | none => rfl
      | some t => simp [hrefused t hlookup]
    rw [step_send_refused hrefused, hnone]
    exact .of_find rfl

/-- A handler that returns `Reject` offers it the message. -/
theorem handlerReturns_receives (hforensic : Forensic s.broker)
    (hunheld : ∀ t ∈ s.transports, t.topic = deadLetterTopic source → ¬ t.busy) (i : Nat) :
    Receives source (s.failures source (.handlerReturns i (.returned .reject))) s.broker
      (s.step (.handlerReturns i (.returned .reject))).broker := by
  simp only [failures, step]
  cases hlookup : s.transports[i]? with
  | none =>
      simp only [call, hlookup]
      exact .of_find rfl
  | some t =>
      dsimp only
      cases hcallable : t.callable with
      | false =>
          rw [call_of_not hlookup hcallable]
          exact .of_find rfl
      | true =>
          rw [if_pos rfl, call_of_may _ hlookup hcallable]
          cases hhandling : t.handling with
          | none =>
              rw [endPump_run_none i s.broker t _ hhandling]
              exact .of_find rfl
          | some message =>
              have hother : t.topic ≠ deadLetterTopic source := fun heq =>
                hunheld t (List.mem_of_getElem? hlookup) heq
                  (.inr (by rw [hhandling, Option.isSome_some]))
              rw [endPump_run i s.broker t (by decide) hhandling, Option.toList_some,
                List.flatMap_singleton]
              exact rejected_receives hforensic _ hother message

/-- So does `settle(Reject)`. -/
theorem settle_receives (hforensic : Forensic s.broker)
    (hunheld : ∀ t ∈ s.transports, t.topic = deadLetterTopic source → ¬ t.busy) (i tag : Nat) :
    Receives source (s.failures source (.settle i tag .reject)) s.broker
      (s.step (.settle i tag .reject)).broker := by
  simp only [failures, step]
  cases hlookup : s.transports[i]? with
  | none =>
      simp only [call, hlookup]
      exact .of_find rfl
  | some t =>
      dsimp only
      cases hcallable : t.callable with
      | false =>
          rw [call_of_not hlookup hcallable]
          exact .of_find rfl
      | true =>
          rw [call_of_may _ hlookup hcallable]
          by_cases hnone : t.connected = true → t.outstanding[tag]? = none
          · have hreject : Disposition.reject ≠ .deferred := by decide
            obtain ⟨what, hrun⟩ := settle_run_none i s.broker t hreject hnone
            rw [hrun]
            cases hconnected : t.connected with
            | false => exact .of_find rfl
            | true =>
                rw [hnone hconnected]
                exact .of_find rfl
          · obtain ⟨hconnected, hsome⟩ := Classical.not_imp.mp hnone
            obtain ⟨message, hmessage⟩ := Option.ne_none_iff_exists'.mp hsome
            have hother : t.topic ≠ deadLetterTopic source := fun heq =>
              hunheld t (List.mem_of_getElem? hlookup) heq (.inl (isEmpty_of_getElem? hmessage))
            rw [settle_run i s.broker t (by decide) hconnected hmessage, hconnected, hmessage,
              Bool.and_self, if_pos rfl, Option.toList_some, List.flatMap_singleton]
            exact rejected_receives hforensic _ hother message

/-- Only these three calls have failures. -/
theorem failures_eq_nil (hsend : ∀ i topic payload options, a ≠ .send i topic payload options)
    (hreject : ∀ i, a ≠ .handlerReturns i (.returned .reject))
    (hsettle : ∀ i tag, a ≠ .settle i tag .reject) : s.failures source a = [] := by
  unfold failures
  split
  · next i topic payload options => exact absurd rfl (hsend i topic payload options)
  · next i => exact absurd rfl (hreject i)
  · next i tag => exact absurd rfl (hsettle i tag)
  · rfl

/-- Every other call leaves it alone, or creates it. -/
theorem others_receive
    (hunheld : ∀ t ∈ s.transports, t.topic = deadLetterTopic source → ¬ t.busy)
    (hguard : LeavesForensic source s a)
    (hsend : ∀ i topic payload options, a ≠ .send i topic payload options)
    (hreject : ∀ i, a ≠ .handlerReturns i (.returned .reject))
    (hsettle : ∀ i tag, a ≠ .settle i tag .reject) :
    Receives source (s.failures source a) s.broker (s.step a).broker ∨
      s.broker.find (deadLetterTopic source) = none ∧ s.failures source a = [] ∧
        ∀ state, (s.step a).broker.find (deadLetterTopic source) = some state →
          state.messages = [] := by
  rw [failures_eq_nil hsend hreject hsettle]
  rcases step_writes s a with hsame | ⟨i, t, hlookup, heffect⟩
  · exact .inl (.of_find (by rw [hsame]))
  · rcases quiet_receives heffect hlookup hguard (hunheld t (List.mem_of_getElem? hlookup))
      (hsend i) (hreject i) (hsettle i) with hreceives | ⟨habsent, hempty⟩
    · exact .inl hreceives
    · exact .inr ⟨habsent, rfl, hempty⟩

/-- A call offers the forensic destination what its source fails. -/
theorem step_receives (hforensic : Forensic s.broker)
    (hunheld : ∀ t ∈ s.transports, t.topic = deadLetterTopic source → ¬ t.busy)
    (hguard : LeavesForensic source s a) :
    Receives source (s.failures source a) s.broker (s.step a).broker ∨
      s.broker.find (deadLetterTopic source) = none ∧ s.failures source a = [] ∧
        ∀ state, (s.step a).broker.find (deadLetterTopic source) = some state →
          state.messages = [] := by
  have hothers := others_receive hunheld hguard
  cases a with
  | send i topic payload options => exact .inl (send_receives hforensic hguard)
  | handlerReturns i outcome =>
      by_cases hreject : outcome = .returned .reject
      · subst hreject
        exact .inl (handlerReturns_receives hforensic hunheld i)
      · refine hothers (by simp) (fun j heq => hreject ?_) (by simp)
        exact (Action.handlerReturns.inj heq).2
  | settle i tag d =>
      by_cases hreject : d = .reject
      · subst hreject
        exact .inl (settle_receives hforensic hunheld i tag)
      · refine hothers (by simp) (by simp) (fun j tag' heq => hreject ?_)
        exact (Action.settle.inj heq).2.2
  | _ => exact hothers (by simp) (by simp) (by simp)

/-- Nobody comes to hold a message of the forensic destination. -/
theorem unheld_step (hstanding : Standing s)
    (hunheld : ∀ t ∈ s.transports, t.topic = deadLetterTopic source → ¬ t.busy)
    (hguard : LeavesForensic source s a) :
    ∀ t ∈ (s.step a).transports, t.topic = deadLetterTopic source → ¬ t.busy := by
  intro t' ht' htopic
  obtain ⟨i, hlookup'⟩ := List.mem_iff_getElem?.mp ht'
  rcases step_call s a hlookup' with ⟨-, rfl⟩ | ⟨t, hlookup, heffect⟩
  · simp [busy]
  · have ht := List.mem_of_getElem? hlookup
    have hbefore := hunheld t ht
    -- what was held before is held by a transport of another topic
    have hother : ∀ message, t.handling = some message → t.topic ≠ deadLetterTopic source :=
      fun message hmessage heq =>
        hbefore heq (.inr (by rw [hmessage, Option.isSome_some]))
    cases heffect with
    | steady hsteady =>
        rw [busy, hsteady.outstanding, hsteady.handling]
        exact hbefore (hsteady.topic ▸ htopic)
    | subscribed topic haction hconnected hfree =>
        obtain ⟨hempty, hidle⟩ := (hstanding.tidy t ht).unsubscribed hfree
        simp [busy, hempty, hidle]
    | left haction hidle hgone =>
        have hnone : t.handling = none := by
          simp only [idle, Bool.and_eq_true, Option.isNone_iff_eq_none] at hidle
          exact hidle.2
        simp [busy, hgone.outstanding, hgone.handling, hnone]
    | delivered haction hidle hconnected hhandler hempty state message rest hfind hmessages =>
        subst haction
        have hnone := hguard t hlookup htopic state (htopic ▸ hfind)
        rw [hnone] at hmessages
        exact absurd hmessages (by simp)
    | threw what message haction hcallable hmessage => exact absurd htopic (hother _ hmessage)
    | deferred message haction hcallable hmessage => exact absurd htopic (hother _ hmessage)
    | handled message d hd haction hcallable hmessage =>
        rw [counted_topic] at htopic
        exact absurd htopic (hother _ hmessage)
    | settled tag message d hd haction hcallable hconnected hmessage =>
        rw [counted_topic] at htopic
        exact absurd (.inl (isEmpty_of_getElem? hmessage)) (hbefore htopic)

/-- The step lemma: the failures of a call come after those before it. -/
theorem Preserved.step (h : Preserved source bodies s) (hstanding : Standing s)
    (hforensic : Forensic s.broker) (hguard : LeavesForensic source s a) :
    Preserved source (bodies ++ s.failures source a) (s.step a) := by
  have hunheld := unheld_step hstanding h.unheld hguard
  rcases step_receives hforensic h.unheld hguard with hreceives | ⟨hnone, hfailures, hempty⟩
  · refine ⟨fun hnone' => ?_, fun state' hstate' hagrees => ?_, hunheld⟩
    · cases hfind : s.broker.find (deadLetterTopic source) with
      | none => rw [h.absent hfind, (hreceives.absent hfind).1, List.append_nil]
      | some state =>
          obtain ⟨state', hstate', -⟩ := hreceives.present state hfind
          exact absurd (hnone'.symm.trans hstate') (by simp)
    · cases hfind : s.broker.find (deadLetterTopic source) with
      | none => exact absurd ((hreceives.absent hfind).2.symm.trans hstate') (by simp)
      | some state =>
          obtain ⟨st, hst, hoptions, hrecords⟩ := hreceives.present state hfind
          obtain rfl := Option.some.inj (hst.symm.trans hstate')
          have hbefore : agrees state.options (forensicTopicOptions source) = true :=
            hoptions ▸ hagrees
          exact hrecords hbefore bodies (h.records state hfind hbefore)
  · -- it did not exist before this call
    rw [hfailures, List.append_nil]
    have hbodies := h.absent hnone
    refine ⟨fun _ => hbodies, fun state' hstate' _ => ?_, hunheld⟩
    rw [hbodies]
    exact ⟨by rw [hempty state' hstate']; rfl, by simp [hempty state' hstate']⟩

end Step

/-- The run lemma. -/
theorem Preserved.runFrom {source : Topic} {s : System} {bodies : List Bytes}
    {actions : List Action} (h : Preserved source bodies s) (hprovided : Provided s)
    (hguard : machine.GuardedFrom (LeavesForensic source) s actions) :
    Preserved source (bodies ++ allFailures source s actions) (machine.runFrom s actions) := by
  induction actions generalizing s bodies with
  | nil => rwa [allFailures, List.append_nil]
  | cons a rest ih =>
      have hnext := ih (h.step hprovided.standing hprovided.forensic hguard.1)
        (hprovided.step a) hguard.2
      rwa [List.append_assoc] at hnext

theorem preserved_init (source : Topic) : Preserved source [] machine.init :=
  ⟨fun _ => rfl, fun state hstate => absurd hstate (by simp [machine, find]),
    fun t ht => absurd ht (by simp [machine])⟩

/-- `ensureTopic` has got past the declaration of the forensic destination, which every
`ensureTopic` of a dead-lettering topic does before it declares the topic. -/
def DeclaresForensic (source : Topic) (s : System) : Prop :=
  ∃ t ∈ s.transports, ∃ options, t.declaring = some (source, options) ∧
    options.deadLetter = true

/-- Once `source` is declared with a forensic destination, in every run that leaves that
destination alone it holds the first failures of `source`, in their order. -/
theorem forensic_records {source : Topic} {before after : List Action}
    (hdeclares : DeclaresForensic source (machine.run before))
    (hleaves : machine.Guarded (LeavesForensic source) (before ++ after)) :
    ∃ state, (machine.run (before ++ after)).broker.find (deadLetterTopic source) = some state ∧
      state.messages.map (·.body) =
        (allFailures source machine.init (before ++ after)).take kForensicMaxLength ∧
      ∀ m ∈ state.messages, m.redelivered = false := by
  have hstands : machine.Always (fun s => Standing s ∧ GroupsStand s) before :=
    .of_step before (fun s a h => ⟨h.1.step a, h.2.step h.1 a⟩) ⟨standing_init, groupsStand_init⟩
  obtain ⟨hstanding, hgroups⟩ : _ ∧ _ := hstands.last
  obtain ⟨t, ht, options, hdeclaring, hdead⟩ := hdeclares
  have hready := hgroups.declaring t ht source options hdeclaring hdead
  -- its forensic destination stays as it was declared
  have hkept : machine.AlwaysFrom (fun s => Standing s ∧ s.broker.ForensicReady source)
      (machine.run before) after :=
    .of_step after (fun s a h => ⟨h.1.step a, h.2.mono (h.1.extends a)⟩) ⟨hstanding, hready⟩
  have hend : (machine.run (before ++ after)).broker.ForensicReady source := by
    rw [Machine.run, Machine.runFrom_append]
    exact hkept.last.2
  obtain ⟨stored, hstored, hagrees⟩ := hend
  obtain ⟨state, hfind, rfl⟩ := Option.map_eq_some_iff.mp hstored
  have hpreserved := (preserved_init source).runFrom provided_init hleaves
  have hrecords := hpreserved.records state hfind hagrees
  exact ⟨state, hfind, hrecords.first, hrecords.fresh⟩

/-- A message that a handler rejects, one that `settle` rejects and one that is evicted. -/
def failingRun : List Action :=
  let plain : SendOptions := { durable := false }
  [.create, .connect 0, .ensureTopic 0 "jobs" { maxLength := 1 }, .ensureTopicSource 0,
   .subscribe 0 "jobs" true, .send 0 "jobs" [1] plain, .pump 0,
   .handlerReturns 0 (.returned .reject), .send 0 "jobs" [2] plain, .pump 0,
   .handlerReturns 0 (.returned .deferred), .send 0 "jobs" [3] plain,
   .send 0 "jobs" [4] plain, .settle 0 3 .reject]

theorem forensic_records_failingRun :
    ∃ state, (machine.run failingRun).broker.find "motus.dead-letter.jobs" = some state ∧
      state.messages.map (·.body) = [[1], [3], [2]] := by
  have hdeclares : DeclaresForensic "jobs" (machine.run (failingRun.take 3)) :=
    ⟨_, List.mem_singleton.mpr rfl, { maxLength := 1 }, rfl, rfl⟩
  have hleaves : machine.Guarded (LeavesForensic "jobs")
      (failingRun.take 3 ++ failingRun.drop 3) := by decide +kernel
  obtain ⟨state, hfind, hbodies, -⟩ := forensic_records hdeclares hleaves
  have hfailures : allFailures "jobs" machine.init failingRun = [[1], [3], [2]] := by
    decide +kernel
  rw [List.take_append_drop] at hfind hbodies
  rw [hfailures] at hbodies
  exact ⟨state, hfind, hbodies⟩

/-- No call names the forensic destination of `source`, and no send is to a topic of the
dead-letter group. -/
def NamesNoForensic (source : Topic) (s : System) : Action → Prop
  | .send _ topic _ _ => topic ≠ deadLetterTopic source ∧
      ((s.broker.find topic).getD {}).options.group ≠ kDeadLetterExchange
  | .subscribe _ topic _ => topic ≠ deadLetterTopic source
  | .purgeTopic _ topic => topic ≠ deadLetterTopic source
  | _ => True

/-- Declarations agree on what a queue is and not on its group, so a forensic destination
that a caller declared in a group of its own stays there. -/
def divertedRun : List Action :=
  [.create, .connect 0,
   .ensureTopic 0 (deadLetterTopic "jobs") { forensicTopicOptions "jobs" with group := "orders" },
   .ensureTopicSource 0, .ensureTopic 0 "jobs" {}, .ensureTopicSource 0,
   .ensureTopic 0 "intake" { group := "orders", routing := .exact }, .ensureTopicSource 0,
   .send 0 "intake" [7] { durable := false, route := "jobs" }]

theorem divertedRun_not_preserved :
    DeclaresForensic "jobs" (machine.run (divertedRun.take 5)) ∧
      machine.Guarded (NamesNoForensic "jobs") divertedRun ∧
      ¬ ∃ state, (machine.run divertedRun).broker.find (deadLetterTopic "jobs") = some state ∧
        state.messages.map (·.body) =
          (allFailures "jobs" machine.init divertedRun).take kForensicMaxLength := by
  refine ⟨⟨_, List.mem_singleton.mpr rfl, {}, rfl, rfl⟩, ?_, ?_⟩
  · refine ⟨trivial, trivial, trivial, trivial, trivial, trivial, trivial, trivial, ?_, trivial⟩
    constructor <;> decide +kernel
  · rintro ⟨state, hfind, hbodies⟩
    have hholds : ((machine.run divertedRun).broker.find (deadLetterTopic "jobs")).map
        (·.messages.map (·.body)) = some [[7]] := by decide +kernel
    have hfailures : allFailures "jobs" machine.init divertedRun = [] := by decide +kernel
    rw [hfind, Option.map_some, hbodies, hfailures] at hholds
    exact absurd hholds (by decide)

end System

end Motus.InMemory
