import Motus.InMemory.Groups

set_option autoImplicit false

/-!
# Where a send into a group goes

`publish` walks over all topics while the overflow of one of them may write into
another.  `Turn` is what one matched destination sees of it, by its own overflow
policy, and `Turns` is the walk.  What the whole walk does to a topic follows from
the turns, because a forensic destination neither evicts nor dead-letters.
-/

namespace Motus.InMemory

open Motus.Foundation Motus.Transport

namespace TopicState

/-- The topic keeps a copy that is offered to it. -/
def accepts (state : TopicState) : Bool :=
  !state.full || decide (state.options.overflow = .dropHead)

/-- The topic after a copy was offered to it, by its own overflow policy. -/
def offeredTo (state : TopicState) (message : Held) : TopicState :=
  if state.full then
    match state.options.overflow with
    | .dropHead => { state with messages := state.messages.tail ++ [message] }
    | .rejectPublish | .rejectPublishDlx => state
  else { state with messages := state.messages ++ [message] }

/-- The topic is full, and what it has no room for goes to its forensic destination. -/
def overflows (state : TopicState) : Bool :=
  state.full && state.options.deadLetter && decide (state.options.overflow ≠ .rejectPublish)

/-- The message that then goes there. -/
def displaced (state : TopicState) (message : Held) : Option Held :=
  if state.overflows then
    match state.options.overflow with
    | .dropHead => state.messages.head?
    | .rejectPublish => none
    | .rejectPublishDlx => some message
  else none

@[simp] theorem options_offeredTo (state : TopicState) (message : Held) :
    (state.offeredTo message).options = state.options := by
  unfold offeredTo
  split
  · cases state.options.overflow <;> rfl
  · rfl

@[simp] theorem binding_offeredTo (state : TopicState) (message : Held) :
    (state.offeredTo message).binding = state.binding := by
  unfold offeredTo
  split
  · cases state.options.overflow <;> rfl
  · rfl

/-- A copy is kept exactly when it ends at the back of the queue. -/
theorem offeredTo_of_accepts {state : TopicState} (h : state.accepts = true) (message : Held) :
    ∃ kept, (state.offeredTo message).messages = kept ++ [message] := by
  unfold accepts at h
  unfold offeredTo
  split
  · next hfull =>
      have hpolicy : state.options.overflow = .dropHead := by simpa [hfull] using h
      rw [hpolicy]
      exact ⟨_, rfl⟩
  · exact ⟨_, rfl⟩

theorem offeredTo_of_refuses {state : TopicState} (h : state.accepts = false) (message : Held) :
    state.offeredTo message = state := by
  unfold accepts at h
  unfold offeredTo
  split
  · cases hpolicy : state.options.overflow with
    | dropHead => simp [hpolicy] at h
    | rejectPublish => rfl
    | rejectPublishDlx => rfl
  · next hroom => simp [hroom] at h

end TopicState

namespace Broker

/-- The copies that `publish` has offered, with the topics they were offered to. -/
def offersMade (b : Broker) : List (Topic × Held) :=
  b.journal.filterMap fun
    | .offered topic message => some (topic, message)
    | _ => none

/-- The topic is in the group, and its binding matches the key. -/
def bindsTo (b : Broker) (group : String) (routing : Routing) (key : String) (topic : Topic) :
    Bool :=
  (b.find topic).any fun state =>
    decide (state.options.group = group) && bindingMatches routing state.binding key

/-- The destinations of a send into a group, in the order of their names. -/
def destinations (b : Broker) (group : String) (routing : Routing) (key : String) : List Topic :=
  b.topics.keys.filter (b.bindsTo group routing key)

/-- The options and the binding of a topic. -/
def settings (b : Broker) (topic : Topic) : Option (TopicOptions × String) :=
  (b.find topic).map fun state => (state.options, state.binding)

/-- The topic exists and overflows into its forensic destination. -/
def overflowsAt (b : Broker) (topic : Topic) : Bool := (b.find topic).any (·.overflows)

end Broker

/-- One copy offered to one destination, and whether that kept it. -/
structure Offer where
  topic : Topic
  copy : Held
  accepted : Bool
  deriving DecidableEq, Repr

open Broker

/-- One destination has been offered its copy: it did with it what its own overflow
policy says, and nothing else changed but its forensic destination, which was
offered what the policy displaced. -/
structure Turn (body : Bytes) (b : Broker) (offer : Offer) (b' : Broker) : Prop where
  copy : offer.copy = b.fresh body
  exists_state : ∃ state, b.find offer.topic = some state ∧ offer.accepted = state.accepts ∧
    b'.find offer.topic = some (state.offeredTo offer.copy) ∧
    match state.displaced offer.copy with
    | none => ∀ t, t ≠ offer.topic → b'.find t = b.find t
    | some message =>
        b'.find (deadLetterTopic offer.topic) = (b.find (deadLetterTopic offer.topic)).map
            (·.offeredTo ((b.offered offer.topic body).renumbered message)) ∧
          ∀ t, t ≠ offer.topic → t ≠ deadLetterTopic offer.topic → b'.find t = b.find t
  offersMade : b'.offersMade = b.offersMade ++ [(offer.topic, offer.copy)]
  sequence_lt : b.sequence < b'.sequence
  groups : b'.groups = b.groups

/-- Destinations that are offered their copies one after the other. -/
inductive Turns (body : Bytes) : Broker → List Offer → Broker → Prop where
  | nil (b : Broker) : Turns body b [] b
  | cons {b b₁ b' : Broker} {offer : Offer} {rest : List Offer} (turn : Turn body b offer b₁)
      (turns : Turns body b₁ rest b') : Turns body b (offer :: rest) b'

namespace Broker

/-! ## One destination -/

theorem offersMade_log (b : Broker) (entry : Entry) : (b.log entry).offersMade =
    b.offersMade ++ (match entry with | .offered topic message => [(topic, message)] | _ => []) := by
  cases entry <;> simp [offersMade, log]

@[simp] theorem offersMade_write (b : Broker) (topic : Topic) (state : TopicState) :
    (b.write topic state).offersMade = b.offersMade := rfl

@[simp] theorem offersMade_close (b : Broker) (message : Held) (fate : Fate) :
    (b.close message fate).offersMade = b.offersMade := by simp [close, offersMade_log]

@[simp] theorem offersMade_pushBack (b : Broker) (topic : Topic) (message : Held) :
    (b.pushBack topic message).offersMade = b.offersMade := by simp [pushBack, offersMade_log]

@[simp] theorem offersMade_deadLettered (b : Broker) (source : Topic) (message : Held) :
    (b.deadLettered source message).offersMade = b.offersMade := by
  simp only [deadLettered, offersMade_log, List.append_nil]
  rfl

theorem offersMade_offered (b : Broker) (topic : Topic) (body : Bytes) :
    (b.offered topic body).offersMade = b.offersMade ++ [(topic, b.fresh body)] := by
  simp only [offered, offersMade_log]
  rfl

/-- Only the queue of `topic` has changed, to `state`. -/
structure Becomes (b : Broker) (topic : Topic) (state : TopicState) (b' : Broker) : Prop where
  self : b'.find topic = some state
  others : ∀ t, t ≠ topic → b'.find t = b.find t
  offersMade : b'.offersMade = b.offersMade
  sequence : b'.sequence = b.sequence
  groups : b'.groups = b.groups

theorem Becomes.pushBack {b b' : Broker} {topic : Topic} {state : TopicState}
    (h : Becomes b topic state b') (message : Held) :
    Becomes b topic { state with messages := state.messages ++ [message] }
      (b'.pushBack topic message) := by
  refine ⟨?_, fun t ht => ?_, ?_, h.sequence, h.groups⟩
  · rw [find_pushBack, if_pos rfl, h.self, Option.getD_some]
  · rw [find_pushBack, if_neg (Ne.symm ht), h.others t ht]
  · rw [offersMade_pushBack, h.offersMade]

theorem Becomes.close {b b' : Broker} {topic : Topic} {state : TopicState}
    (h : Becomes b topic state b') (message : Held) (fate : Fate) :
    Becomes b topic state (b'.close message fate) :=
  ⟨h.self, h.others, by rw [offersMade_close, h.offersMade], h.sequence, h.groups⟩

theorem Becomes.refl {b : Broker} {topic : Topic} {state : TopicState}
    (hfind : b.find topic = some state) : Becomes b topic state b :=
  ⟨hfind, fun _ _ => rfl, rfl, rfl, rfl⟩

theorem becomes_write (b : Broker) (topic : Topic) (state : TopicState) :
    Becomes b topic state (b.write topic state) :=
  ⟨find_write_self _ _ _, fun _ ht => find_write_of_ne _ (Ne.symm ht) _, rfl, rfl, rfl⟩

section Alone

variable {b : Broker} {topic : Topic} {state : TopicState}

/-- A topic that displaces nothing into its forensic destination changes alone. -/
theorem enqueueLocked_alone (hfind : b.find topic = some state)
    (halone : state.overflows = false) (fuel : Nat) (message : Held) :
    ∃ b', enqueueLocked (fuel + 1) topic message b = (.ok state.accepts, b') ∧
      Becomes b topic (state.offeredTo message) b' := by
  unfold TopicState.overflows at halone
  cases hfull : state.full with
  | false =>
      refine ⟨_, by rw [enqueueLocked_room hfind hfull, TopicState.accepts, hfull]; rfl, ?_⟩
      rw [TopicState.offeredTo, hfull]
      exact (Becomes.refl hfind).pushBack message
  | true =>
      cases hpolicy : state.options.overflow with
      | dropHead =>
          have hdead : state.options.deadLetter = false := by simpa [hfull, hpolicy] using halone
          obtain ⟨evicted, rest, hmessages⟩ :=
            List.exists_cons_of_ne_nil (messages_ne_nil_of_full hfull)
          rw [enqueueLocked_dropHead hfind hfull hpolicy hmessages, hdead,
            if_neg Bool.false_ne_true, TopicState.accepts, hfull, hpolicy,
            TopicState.offeredTo, if_pos hfull, hpolicy, hmessages, List.tail_cons]
          exact ⟨_, rfl,
            ((becomes_write b topic { state with messages := rest }).close _ _).pushBack message⟩
      | rejectPublish =>
          rw [enqueueLocked_refused hfind hfull (.inl hpolicy), TopicState.accepts, hfull, hpolicy,
            TopicState.offeredTo, if_pos hfull, hpolicy]
          exact ⟨_, rfl, (Becomes.refl hfind).close _ _⟩
      | rejectPublishDlx =>
          have hdead : state.options.deadLetter = false := by simpa [hfull, hpolicy] using halone
          rw [enqueueLocked_refused hfind hfull (.inr ⟨hpolicy, hdead⟩), TopicState.accepts, hfull,
            hpolicy, TopicState.offeredTo, if_pos hfull, hpolicy]
          exact ⟨_, rfl, (Becomes.refl hfind).close _ _⟩

/-- The displaced message reaches a forensic destination that dead-letters nothing. -/
theorem deadLetterVia_displaced {source : Topic} {forensic : TopicState}
    (hdead : b.deadLetters source = true)
    (hforensic : b.find (deadLetterTopic source) = some forensic)
    (halone : forensic.overflows = false) (fuel : Nat) (message : Held) :
    ∃ b', deadLetterVia (enqueueLocked (fuel + 1)) source message b = (.ok (), b') ∧
      Becomes (b.deadLettered source message) (deadLetterTopic source)
        (forensic.offeredTo (b.renumbered message)) b' := by
  have hforensic' : (b.deadLettered source message).find (deadLetterTopic source) =
      some forensic := hforensic
  obtain ⟨b', hrun, hbecomes⟩ :=
    enqueueLocked_alone hforensic' halone fuel (b.renumbered message)
  refine ⟨b', ?_, hbecomes⟩
  rw [deadLetterVia_forward hdead hforensic, hrun]
  rfl

/-- A topic that overflows, and its forensic destination. -/
theorem enqueueLocked_overflows {forensic : TopicState} (hfind : b.find topic = some state)
    (hover : state.overflows = true)
    (hforensic : b.find (deadLetterTopic topic) = some forensic)
    (halone : forensic.overflows = false) (fuel : Nat) (message : Held) :
    ∃ moved b', state.displaced message = some moved ∧
      enqueueLocked (fuel + 1 + 1) topic message b = (.ok state.accepts, b') ∧
      b'.find topic = some (state.offeredTo message) ∧
      b'.find (deadLetterTopic topic) = some (forensic.offeredTo (b.renumbered moved)) ∧
      (∀ t, t ≠ topic → t ≠ deadLetterTopic topic → b'.find t = b.find t) ∧
      b'.offersMade = b.offersMade ∧ b'.sequence = b.sequence + 1 ∧ b'.groups = b.groups := by
  have hne := deadLetterTopic_ne topic
  have hflags := hover
  simp only [TopicState.overflows, Bool.and_eq_true, decide_eq_true_eq] at hflags
  obtain ⟨⟨hfull, hdead⟩, hpolicy⟩ := hflags
  unfold TopicState.displaced TopicState.accepts TopicState.offeredTo
  rw [if_pos hover, if_pos hfull, hfull]
  cases hoverflow : state.options.overflow with
  | rejectPublish => exact absurd hoverflow hpolicy
  | rejectPublishDlx =>
      obtain ⟨b', hrun, hbecomes⟩ := deadLetterVia_displaced
        ((deadLetters_of_find hfind).trans hdead) hforensic halone fuel message
      refine ⟨message, b', rfl, ?_, ?_, hbecomes.self, fun t _ ht => hbecomes.others t ht, ?_,
        hbecomes.sequence, hbecomes.groups⟩
      · rw [enqueueLocked_dlx hfind hfull hoverflow hdead, hrun]
        rfl
      · exact (hbecomes.others topic hne.symm).trans hfind
      · rw [hbecomes.offersMade, offersMade_deadLettered]
  | dropHead =>
      obtain ⟨evicted, rest, hmessages⟩ :=
        List.exists_cons_of_ne_nil (messages_ne_nil_of_full hfull)
      have hpopped := find_write_self b topic { state with messages := rest }
      have hforensic' : (b.write topic { state with messages := rest }).find
          (deadLetterTopic topic) = some forensic := by
        rw [find_write_of_ne _ hne.symm, hforensic]
      obtain ⟨c, hrun, hbecomes⟩ := deadLetterVia_displaced
        ((deadLetters_of_find hpopped).trans hdead) hforensic' halone fuel evicted
      have hself : c.find topic = some { state with messages := rest } :=
        (hbecomes.others topic hne.symm).trans hpopped
      refine ⟨evicted, c.pushBack topic message, by rw [hmessages]; rfl, ?_, ?_, ?_,
        fun t ht ht' => ?_, ?_, hbecomes.sequence, hbecomes.groups⟩
      · rw [enqueueLocked_dropHead hfind hfull hoverflow hmessages, hdead, if_pos rfl, hrun]
        rfl
      · rw [find_pushBack, if_pos rfl, hself, hmessages]
        rfl
      · rw [find_pushBack, if_neg hne.symm, hbecomes.self]
        rfl
      · rw [find_pushBack, if_neg ht.symm, hbecomes.others t ht']
        exact find_write_of_ne b ht.symm _
      · rw [offersMade_pushBack, hbecomes.offersMade, offersMade_deadLettered, offersMade_write]

/-- A topic in a group takes its turn. -/
theorem offer_turn (hgrouped : Grouped b) (hfind : b.find topic = some state)
    (hgroup : state.options.group ≠ "") (body : Bytes) :
    ∃ b', offer topic body b = (.ok state.accepts, b') ∧
      Turn body b ⟨topic, b.fresh body, state.accepts⟩ b' := by
  have hoffered : (b.offered topic body).find topic = some state := hfind
  have htopic : (b.find topic).isSome = true := by rw [hfind, Option.isSome_some]
  cases hover : state.overflows with
  | false =>
      obtain ⟨fuel, hfuel⟩ := exists_fuel htopic
      obtain ⟨b', hrun, hbecomes⟩ := enqueueLocked_alone hoffered hover fuel (b.fresh body)
      refine ⟨b', ?_, rfl, ⟨state, hfind, rfl, hbecomes.self, ?_⟩, ?_, ?_, hbecomes.groups⟩
      · simp only [offer, Exec.get_bind, Exec.set_bind]
        rw [hfuel, hrun]
      · rw [TopicState.displaced, hover, if_neg Bool.false_ne_true]
        exact hbecomes.others
      · rw [hbecomes.offersMade, offersMade_offered]
      · rw [hbecomes.sequence]
        exact Nat.lt_succ_self _
  | true =>
      have hdead : state.options.deadLetter = true := by
        simp only [TopicState.overflows, Bool.and_eq_true] at hover
        exact hover.1.2
      obtain ⟨stored, hstored, hagrees⟩ :=
        (hgrouped topic state.options (optionsOf_of_find hfind) hgroup).2 hdead
      obtain ⟨forensic, hforensic, rfl⟩ := Option.map_eq_some_iff.mp hstored
      have halone : forensic.overflows = false := by
        simp only [agrees, forensicTopicOptions, Bool.and_eq_true, beq_iff_eq] at hagrees
        simp [TopicState.overflows, hagrees]
      obtain ⟨fuel, hfuel⟩ := exists_fuel_two (deadLetterTopic_ne topic).symm htopic
        (by rw [hforensic, Option.isSome_some])
      obtain ⟨moved, b', hmoved, hrun, hself, hforensic', hothers, hoffers, hsequence, hgroups⟩ :=
        enqueueLocked_overflows (b := b.offered topic body) hoffered hover hforensic halone fuel
          (b.fresh body)
      refine ⟨b', ?_, rfl, ⟨state, hfind, rfl, hself, ?_⟩, ?_, ?_, hgroups⟩
      · simp only [offer, Exec.get_bind, Exec.set_bind]
        rw [hfuel, hrun]
      · rw [hmoved]
        exact ⟨by rw [hforensic', hforensic]; rfl, hothers⟩
      · rw [hoffers, offersMade_offered]
      · rw [hsequence, sequence_offered]
        omega

/-- A publish to a topic in no group, or to one that does not exist yet, when it has
room. -/
theorem publish_plain {b : Broker} {topic : Topic}
    (hgroup : ((b.find topic).getD {}).options.group = "")
    (hroom : ((b.find topic).getD {}).full = false) (body : Bytes) (route : String) :
    ∃ b', publish topic body route b = (.ok true, b') ∧
      Becomes ((b.touch topic).offered topic body) topic
        { (b.find topic).getD {} with
          messages := ((b.find topic).getD {}).messages ++ [b.fresh body] } b' := by
  have htouched : (b.touch topic).find topic = some ((b.find topic).getD {}) := by
    rw [find_touch, if_pos rfl]
  have halone : ((b.find topic).getD {}).overflows = false := by
    rw [TopicState.overflows, hroom]
    rfl
  have haccepts : ((b.find topic).getD {}).accepts = true := by
    rw [TopicState.accepts, hroom]
    rfl
  obtain ⟨fuel, hfuel⟩ := exists_fuel (b := b.touch topic) (by rw [htouched, Option.isSome_some])
  obtain ⟨b', hrun, hbecomes⟩ := enqueueLocked_alone (b := (b.touch topic).offered topic body)
    htouched halone fuel ((b.touch topic).fresh body)
  rw [TopicState.offeredTo, if_neg (by simp [hroom])] at hbecomes
  refine ⟨b', ?_, hbecomes⟩
  simp only [publish, Exec.get_bind, if_pos hgroup, Exec.set_bind, offer]
  rw [hfuel, hrun, haccepts]

/-- A publish to a topic in no group that has room. -/
theorem offersMade_publish_plain (hfind : b.find topic = some state)
    (hgroup : state.options.group = "") (hroom : state.full = false) (body : Bytes)
    (route : String) :
    (publish topic body route b).2.offersMade = b.offersMade ++ [(topic, b.fresh body)] := by
  obtain ⟨b', hrun, hbecomes⟩ := @publish_plain b topic (by rw [hfind]; exact hgroup)
    (by rw [hfind]; exact hroom) body route
  rw [hrun, hbecomes.offersMade, offersMade_offered]
  rfl

end Alone

theorem bindsTo_congr {b b' : Broker} (h : ∀ t, b'.settings t = b.settings t) (group : String)
    (routing : Routing) (key : String) (topic : Topic) :
    b'.bindsTo group routing key topic = b.bindsTo group routing key topic := by
  have hany : ∀ c : Broker, c.bindsTo group routing key topic = (c.settings topic).any fun s =>
      decide (s.1.group = group) && bindingMatches routing s.2 key := by
    intro c
    rw [bindsTo, settings, Option.any_map]
  rw [hany, hany, h]

theorem sameTopics_of_settings {b b' : Broker} (h : ∀ t, b'.settings t = b.settings t) :
    SameTopics b b' := by
  have hfst : ∀ (c : Broker) (t : Topic), c.optionsOf t = (c.settings t).map Prod.fst := by
    intro c t
    rw [optionsOf, settings, Option.map_map]
    rfl
  intro t
  rw [hfst, hfst, h]

theorem settings_of_find {b : Broker} {topic : Topic} {state : TopicState}
    (h : b.find topic = some state) : b.settings topic = some (state.options, state.binding) := by
  rw [settings, h, Option.map_some]

end Broker

/-! ## What a turn leaves alone -/

namespace Turn

variable {body : Bytes} {b b' : Broker} {offer : Offer}

/-- Nothing changes but the topic, and its forensic destination if it overflows. -/
theorem find_other (h : Turn body b offer b') {t : Topic} (hne : t ≠ offer.topic)
    (hforensic : b.overflowsAt offer.topic = true → t ≠ deadLetterTopic offer.topic) :
    b'.find t = b.find t := by
  obtain ⟨state, hfind, -, -, hrest⟩ := h.exists_state
  cases hmoved : state.displaced offer.copy with
  | none =>
      rw [hmoved] at hrest
      exact hrest t hne
  | some message =>
      rw [hmoved] at hrest
      refine hrest.2 t hne (hforensic ?_)
      rw [overflowsAt, hfind, Option.any_some]
      by_contra hnot
      rw [TopicState.displaced, if_neg hnot] at hmoved
      exact absurd hmoved (by simp)

theorem settings (h : Turn body b offer b') (t : Topic) : b'.settings t = b.settings t := by
  obtain ⟨state, hfind, -, hself, hrest⟩ := h.exists_state
  by_cases heq : t = offer.topic
  · subst heq
    rw [settings_of_find hself, settings_of_find hfind, TopicState.options_offeredTo,
      TopicState.binding_offeredTo]
  · cases hmoved : state.displaced offer.copy with
    | none =>
        rw [hmoved] at hrest
        rw [Broker.settings, hrest t heq, Broker.settings]
    | some message =>
        rw [hmoved] at hrest
        by_cases hforensic : t = deadLetterTopic offer.topic
        · subst hforensic
          rw [Broker.settings, hrest.1, Option.map_map, Broker.settings]
          congr 1
          funext forensic
          simp
        · rw [Broker.settings, hrest.2 t heq hforensic, Broker.settings]

theorem grouped (h : Turn body b offer b') (hgrouped : Grouped b) : Grouped b' :=
  hgrouped.of_sameTopics (sameTopics_of_settings h.settings) (.of_eq h.groups)

/-- Another topic overflows afterwards only if it did before: a forensic destination
never does. -/
theorem overflowsAt_of_ne (h : Turn body b offer b') (hgrouped : Grouped b)
    (hgroup : ∃ options, b.optionsOf offer.topic = some options ∧ options.group ≠ "") {t : Topic}
    (hne : t ≠ offer.topic) (hover : b'.overflowsAt t = true) : b.overflowsAt t = true := by
  by_cases hforensic : b.overflowsAt offer.topic = true ∧ t = deadLetterTopic offer.topic
  · obtain ⟨hoverflows, rfl⟩ := hforensic
    obtain ⟨options, hoptions, hgroup⟩ := hgroup
    obtain ⟨state, hfind, rfl⟩ := Option.map_eq_some_iff.mp hoptions
    have hdead : state.options.deadLetter = true := by
      rw [overflowsAt, hfind, Option.any_some, TopicState.overflows, Bool.and_eq_true,
        Bool.and_eq_true] at hoverflows
      exact hoverflows.1.2
    obtain ⟨stored, hstored, hagrees⟩ := (hgrouped _ _ hoptions hgroup).2 hdead
    have hpolicy : stored.overflow = .rejectPublish := by
      simp only [agrees, forensicTopicOptions, Bool.and_eq_true, beq_iff_eq] at hagrees
      exact hagrees.2
    rw [← sameTopics_of_settings h.settings] at hstored
    obtain ⟨forensic, hfound, rfl⟩ := Option.map_eq_some_iff.mp hstored
    rw [overflowsAt, hfound, Option.any_some, TopicState.overflows, hpolicy] at hover
    exact absurd hover (by simp)
  · rw [overflowsAt, h.find_other hne fun hover heq => hforensic ⟨hover, heq⟩] at hover
    exact hover

end Turn

/-! ## The walk -/

namespace Turns

variable {body : Bytes} {b b' : Broker} {offers : List Offer}

theorem settings (h : Turns body b offers b') (t : Topic) : b'.settings t = b.settings t := by
  induction h with
  | nil b => rfl
  | cons turn turns ih => exact ih.trans (turn.settings t)

theorem groups (h : Turns body b offers b') : b'.groups = b.groups := by
  induction h with
  | nil b => rfl
  | cons turn turns ih => exact ih.trans turn.groups

/-- The walk offers one copy at each turn, and no other. -/
theorem offersMade (h : Turns body b offers b') :
    b'.offersMade = b.offersMade ++ offers.map fun offer => (offer.topic, offer.copy) := by
  induction h with
  | nil b => exact (List.append_nil _).symm
  | cons turn turns ih => rw [ih, turn.offersMade, List.append_assoc, List.map_cons]; rfl

/-- Each copy is new, carries the body and is not flagged as redelivered. -/
theorem copies (h : Turns body b offers b') : ∀ offer ∈ offers,
    offer.copy.body = body ∧ offer.copy.redelivered = false ∧
      b.sequence < offer.copy.sequence := by
  induction h with
  | nil b => exact fun offer h => absurd h (by simp)
  | cons turn turns ih =>
      intro offer hoffer
      rcases List.mem_cons.mp hoffer with rfl | hoffer
      · rw [turn.copy]
        exact ⟨rfl, rfl, Nat.lt_succ_self _⟩
      · obtain ⟨hbody, hflag, hlt⟩ := ih offer hoffer
        exact ⟨hbody, hflag, turn.sequence_lt.trans hlt⟩

/-- A topic that no destination overflows into is left alone if it is not a
destination itself, and otherwise does with its copy what its own policy says. -/
theorem elsewhere (h : Turns body b offers b') (hgrouped : Grouped b)
    (hgroup : ∀ offer ∈ offers,
      ∃ options, b.optionsOf offer.topic = some options ∧ options.group ≠ "")
    (hnodup : (offers.map Offer.topic).Nodup) {t : Topic}
    (hfree : ∀ offer ∈ offers, b.overflowsAt offer.topic = true →
      t ≠ deadLetterTopic offer.topic) :
    (t ∉ offers.map Offer.topic → b'.find t = b.find t) ∧
      ∀ offer ∈ offers, offer.topic = t → ∃ state, b.find t = some state ∧
        offer.accepted = state.accepts ∧ b'.find t = some (state.offeredTo offer.copy) := by
  induction h with
  | nil b => exact ⟨fun _ => rfl, fun offer h => absurd h (by simp)⟩
  | @cons b b₁ b' first rest turn turns ih =>
      rw [List.map_cons, List.nodup_cons] at hnodup
      have hne : ∀ offer ∈ rest, offer.topic ≠ first.topic := by
        intro offer hoffer heq
        exact hnodup.1 (heq ▸ List.mem_map_of_mem hoffer)
      have hfirst : t ≠ first.topic → b₁.find t = b.find t := fun htopic =>
        turn.find_other htopic (hfree first List.mem_cons_self)
      obtain ⟨hrest, hturn⟩ := ih (turn.grouped hgrouped)
        (fun offer hoffer => by
          rw [sameTopics_of_settings turn.settings]
          exact hgroup offer (List.mem_cons_of_mem _ hoffer))
        hnodup.2
        (fun offer hoffer hover => hfree offer (List.mem_cons_of_mem _ hoffer)
          (turn.overflowsAt_of_ne hgrouped (hgroup first List.mem_cons_self) (hne offer hoffer)
            hover))
      refine ⟨fun hnot => ?_, fun offer hoffer htopic => ?_⟩
      · rw [List.map_cons, List.mem_cons, not_or] at hnot
        exact (hrest hnot.2).trans (hfirst hnot.1)
      · rcases List.mem_cons.mp hoffer with rfl | hoffer
        · obtain ⟨state, hfind, haccepted, hself, -⟩ := turn.exists_state
          subst htopic
          exact ⟨state, hfind, haccepted, (hrest hnodup.1).trans hself⟩
        · obtain ⟨state, hfind, haccepted, hself⟩ := hturn offer hoffer htopic
          refine ⟨state, ?_, haccepted, hself⟩
          rw [← hfirst (htopic ▸ hne offer hoffer), hfind]

end Turns

/-! ## `publish` -/

/-- What one send into a group with this key has done: every destination, and no
other topic, was offered one copy, in the order of their names. -/
structure Published (body : Bytes) (group : String) (routing : Routing) (key : String)
    (b : Broker) (offers : List Offer) (b' : Broker) : Prop where
  topics : offers.map Offer.topic = b.destinations group routing key
  nodup : (offers.map Offer.topic).Nodup
  copies : ∀ offer ∈ offers, offer.copy.body = body ∧ offer.copy.redelivered = false
  offersMade : b'.offersMade = b.offersMade ++ offers.map fun offer => (offer.topic, offer.copy)
  /-- at its turn each destination does with its copy what its overflow policy says -/
  turns : Turns body b offers b'
  /-- which is the policy applied to the topic as it was, unless it is itself the
  forensic destination of a destination that overflowed -/
  own : ∀ offer ∈ offers,
    (∀ topic ∈ b.destinations group routing key, b.overflowsAt topic = true →
      offer.topic ≠ deadLetterTopic topic) →
    ∃ state, b.find offer.topic = some state ∧ offer.accepted = state.accepts ∧
      b'.find offer.topic = some (state.offeredTo offer.copy)
  /-- no other topic changes but the forensic destinations of those that overflowed -/
  unchanged : ∀ t, t ∉ b.destinations group routing key →
    (∀ topic ∈ b.destinations group routing key, b.overflowsAt topic = true →
      t ≠ deadLetterTopic topic) → b'.find t = b.find t
  settings : ∀ t, b'.settings t = b.settings t
  groups : b'.groups = b.groups

namespace Broker

theorem mem_destinations {b : Broker} {group : String} {routing : Routing} {key : String}
    {topic : Topic} : topic ∈ b.destinations group routing key ↔
      ∃ state, b.find topic = some state ∧ state.options.group = group ∧
        bindingMatches routing state.binding key = true := by
  rw [destinations, List.mem_filter, mem_keys_iff, bindsTo]
  cases hfind : b.find topic with
  | none => simp
  | some state => simp

theorem nodup_destinations (b : Broker) (group : String) (routing : Routing) (key : String) :
    (b.destinations group routing key).Nodup := by
  have hdistinct := b.topics.distinct_keys
  exact (hdistinct.imp fun hne heq => hne (Std.LawfulEqCmp.compare_eq_iff_eq.mpr heq)).filter _

theorem find_of_bindsTo {b : Broker} {group : String} {routing : Routing} {key : String}
    {topic : Topic} (h : b.bindsTo group routing key topic = true) :
    ∃ state, b.find topic = some state := by
  rw [bindsTo] at h
  cases hfind : b.find topic with
  | none => simp [hfind] at h
  | some state => exact ⟨state, rfl⟩

/-- The loop offers a copy to a topic that matches. -/
theorem offerAll_cons_of_bindsTo {group : String} {routing : Routing} {key : String}
    {body : Bytes} {name : Topic} {rest : List Topic} {b : Broker} {accepted : Bool}
    (h : b.bindsTo group routing key name = true) :
    offerAll group routing key body (name :: rest) accepted b =
      (offer name body >>= fun stored =>
        offerAll group routing key body rest (stored && accepted)) b := by
  obtain ⟨state, hfind⟩ := find_of_bindsTo h
  have hmatch : state.options.group = group ∧ bindingMatches routing state.binding key = true := by
    simpa [bindsTo, hfind] using h
  simp only [offerAll, Exec.get_bind, hfind, Option.getD_some, if_pos hmatch]

/-- It passes over a topic that does not. -/
theorem offerAll_cons_of_not {group : String} (hgroup : group ≠ "") {routing : Routing}
    {key : String} {body : Bytes} {name : Topic} {rest : List Topic} {b : Broker}
    {accepted : Bool} (h : b.bindsTo group routing key name = false) :
    offerAll group routing key body (name :: rest) accepted b =
      offerAll group routing key body rest accepted b := by
  have hmatch : ¬ (((b.find name).getD {}).options.group = group ∧
      bindingMatches routing ((b.find name).getD {}).binding key = true) := by
    cases hfind : b.find name with
    | none => exact fun hmatch => hgroup hmatch.1.symm
    | some state => simpa [bindsTo, hfind] using h
  simp only [offerAll, Exec.get_bind, if_neg hmatch]

theorem offerAll_turns {group : String} {routing : Routing} {key : String} {body : Bytes}
    (hgroup : group ≠ "") (names : List Topic) {b : Broker} (hgrouped : Grouped b)
    (accepted : Bool) :
    ∃ offers b', offerAll group routing key body names accepted b =
        (.ok (accepted && offers.all Offer.accepted), b') ∧
      offers.map Offer.topic = names.filter (b.bindsTo group routing key) ∧
      Turns body b offers b' := by
  induction names generalizing b accepted with
  | nil => exact ⟨[], b, by simp [offerAll], rfl, .nil b⟩
  | cons name rest ih =>
      cases hbound : b.bindsTo group routing key name with
      | false =>
          rw [offerAll_cons_of_not hgroup hbound, List.filter_cons_of_neg (by simp [hbound])]
          exact ih hgrouped accepted
      | true =>
          obtain ⟨state, hfind⟩ := find_of_bindsTo hbound
          have hmatch : state.options.group = group ∧
              bindingMatches routing state.binding key = true := by
            simpa [bindsTo, hfind] using hbound
          obtain ⟨c, hrun, hturn⟩ :=
            offer_turn hgrouped hfind (by rw [hmatch.1]; exact hgroup) body
          obtain ⟨offers, b', hrest, htopics, hturns⟩ :=
            ih (hturn.grouped hgrouped) (state.accepts && accepted)
          refine ⟨⟨name, b.fresh body, state.accepts⟩ :: offers, b', ?_, ?_, .cons hturn hturns⟩
          · rw [offerAll_cons_of_bindsTo hbound, Exec.bind_ok hrun, hrest, List.all_cons,
              Bool.and_comm state.accepts, Bool.and_assoc]
          · rw [List.map_cons, htopics, List.filter_cons_of_pos hbound,
              funext (bindsTo_congr hturn.settings group routing key)]

/-- A publish into a group. -/
theorem publish_published {b : Broker} (hgrouped : Grouped b) {topic : Topic} {state : TopicState}
    (hfind : b.find topic = some state) (hgroup : state.options.group ≠ "") {routing : Routing}
    (hrouting : b.groups[state.options.group]? = some routing) (body : Bytes) (route : String) :
    ∃ offers, (publish topic body route b).1 = .ok (offers.all Offer.accepted) ∧
      Published body state.options.group routing (if route = "" then state.binding else route) b
        offers (publish topic body route b).2 := by
  have hopened := opened_of_declared hfind hgroup hrouting
  rw [opened, hfind, Option.getD_some, if_neg hgroup] at hopened
  obtain ⟨offers, b', hrun, htopics, hturns⟩ := @offerAll_turns state.options.group routing
    (if route = "" then state.binding else route) body hgroup b.topics.keys b hgrouped true
  have hpublish : publish topic body route b = (.ok (offers.all Offer.accepted), b') := by
    simp only [publish, Exec.get_bind, hfind, Option.getD_some, if_neg hgroup, Exec.set_bind]
    rw [hopened, hrouting, Option.getD_some, hrun, Bool.true_and]
  have hmem : ∀ offer ∈ offers, offer.topic ∈ b.destinations state.options.group routing
      (if route = "" then state.binding else route) := by
    intro offer hoffer
    rw [destinations, ← htopics]
    exact List.mem_map_of_mem hoffer
  have hnodup : (offers.map Offer.topic).Nodup := htopics ▸ nodup_destinations b _ _ _
  have hgroups : ∀ offer ∈ offers,
      ∃ options, b.optionsOf offer.topic = some options ∧ options.group ≠ "" := by
    intro offer hoffer
    obtain ⟨destination, hdestination, hsame, -⟩ := mem_destinations.mp (hmem offer hoffer)
    exact ⟨_, optionsOf_of_find hdestination, hsame ▸ hgroup⟩
  rw [hpublish]
  refine ⟨offers, rfl, htopics, hnodup, fun offer hoffer => ?_, hturns.offersMade, hturns,
    fun offer hoffer hfree => ?_, fun t hnot hfree => ?_, hturns.settings, hturns.groups⟩
  · obtain ⟨hbody, hflag, -⟩ := hturns.copies offer hoffer
    exact ⟨hbody, hflag⟩
  · exact (hturns.elsewhere hgrouped hgroups hnodup fun other hother =>
      hfree other.topic (hmem other hother)).2 offer hoffer rfl
  · refine (hturns.elsewhere hgrouped hgroups hnodup fun other hother =>
      hfree other.topic (hmem other hother)).1 ?_
    rw [htopics]
    exact hnot

end Broker

/-! ## Runs -/

namespace System

/-- A send to a topic in a group: what it publishes, with which result, and that no
transport gains or loses a delivery by it. -/
def Routes (s : System) (topic : Topic) (state : TopicState) (body : Bytes) (route : String) :
    Prop :=
  ∃ routing offers accepted, s.broker.groups[state.options.group]? = some routing ∧
    (publish topic body route s.broker).1 = .ok accepted ∧
    (accepted = true ↔ ∀ offer ∈ offers, offer.accepted = true) ∧
    Published body state.options.group routing (if route = "" then state.binding else route)
      s.broker offers (publish topic body route s.broker).2 ∧
    ∀ i t options, s.transports[i]? = some t → t.publishes options = true →
      options.route = route →
      (s.step (.send i topic body options)).broker = (publish topic body route s.broker).2 ∧
      (s.step (.send i topic body options)).transports.map (·.outstanding) =
        s.transports.map (·.outstanding)

theorem step_send {s : System} {i : Nat} {t : InMemoryTransport} {options : SendOptions}
    (hlookup : s.transports[i]? = some t) (hpublishes : t.publishes options = true)
    (topic : Topic) (body : Bytes) :
    ∃ stats, s.step (.send i topic body options) =
      ⟨(publish topic body options.route s.broker).2,
        s.transports.set i { t with stats := stats }⟩ := by
  obtain ⟨stats, hrun⟩ := send_apply i s.broker t hpublishes topic body
  have hcallable : t.callable = true := by
    simp only [InMemoryTransport.publishes, Bool.and_eq_true] at hpublishes
    exact hpublishes.1.1
  refine ⟨stats, ?_⟩
  simp only [step]
  rw [call_of_may _ hlookup hcallable, hrun]

/-- In every state of every run a send to a topic in a group offers one copy to each
destination whose binding matches, and to nothing else. -/
theorem routes_of_find (actions : List Action) {topic : Topic} {state : TopicState}
    (hfind : (machine.run actions).broker.find topic = some state)
    (hgroup : state.options.group ≠ "") (body : Bytes) (route : String) :
    Routes (machine.run actions) topic state body route := by
  have hgrouped := (always_groupsStand actions).last.2.grouped
  obtain ⟨hrouting, -⟩ := hgrouped topic _ (optionsOf_of_find hfind) hgroup
  obtain ⟨offers, hresult, hpublished⟩ :=
    publish_published hgrouped hfind hgroup hrouting body route
  refine ⟨_, offers, _, hrouting, hresult, List.all_eq_true, hpublished,
    fun i t options hlookup hpublishes hroute => ?_⟩
  obtain ⟨stats, hstep⟩ := step_send hlookup hpublishes topic body
  subst hroute
  rw [hstep]
  refine ⟨rfl, ?_⟩
  have hkept : ((machine.run actions).transports.map (·.outstanding))[i]? =
      some t.outstanding := by
    rw [List.getElem?_map, hlookup, Option.map_some]
  obtain ⟨hlt, hget⟩ := List.getElem?_eq_some_iff.mp hkept
  have hself := List.set_getElem_self hlt
  rw [hget] at hself
  rw [List.map_set, hself]

/-- Two destinations of one group, the first of which is full. -/
def fanOutRun : List Action :=
  [.create, .connect 0,
   .ensureTopic 0 "audit" { deadLetter := false, maxLength := 1, overflow := .rejectPublish,
                            group := "events", route := "#" },
   .ensureTopicSource 0,
   .ensureTopic 0 "mail" { deadLetter := false, group := "events", route := "user.*" },
   .ensureTopicSource 0,
   .send 0 "mail" [1] { durable := false, route := "order.new" }]

theorem routes_of_find_fanOutRun : ∃ state,
    (machine.run fanOutRun).broker.find "mail" = some state ∧
      Routes (machine.run fanOutRun) "mail" state [2] "user.new" :=
  ⟨{ options := { deadLetter := false, group := "events", route := "user.*" },
     binding := "user.*" }, by decide +kernel,
    routes_of_find fanOutRun (by decide +kernel) (by decide) [2] "user.new"⟩

end System

end Motus.InMemory
