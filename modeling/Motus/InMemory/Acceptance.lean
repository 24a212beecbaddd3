import Motus.InMemory.Forensic

set_option autoImplicit false

/-!
# Whether a send is accepted

`publish` returns whether every destination kept its copy.  The destinations are
offered theirs one after the other, and one that overflows fills its forensic
destination before the turn of the next, so a topic may be offered two messages by
one send.  `accommodates` counts them, from the state before the send alone.
-/

namespace Motus.InMemory

open Motus.Foundation Motus.Transport

namespace TopicState

/-- The topic keeps a copy that is offered to it after so many other messages. -/
def keepsAfter (state : TopicState) (earlier : Nat) : Bool :=
  decide (state.options.maxLength = 0) || decide (state.options.overflow = .dropHead) ||
    decide (state.messages.length + earlier < state.options.maxLength)

theorem keepsAfter_zero (state : TopicState) : state.keepsAfter 0 = state.accepts := by
  unfold keepsAfter accepts full
  cases decide (state.options.overflow = .dropHead) with
  | true => simp
  | false =>
      rw [Bool.or_false, Bool.or_false, Bool.eq_iff_iff]
      simp only [Bool.or_eq_true, decide_eq_true_eq, Bool.not_eq_true', Bool.and_eq_false_iff,
        decide_eq_false_iff_not]
      omega

/-- A message that was offered, kept or not, is one of those offered before. -/
theorem keepsAfter_offeredTo (state : TopicState) (message : Held) (earlier : Nat) :
    (state.offeredTo message).keepsAfter earlier = state.keepsAfter (earlier + 1) := by
  unfold keepsAfter
  rw [options_offeredTo]
  by_cases hdrop : state.options.overflow = .dropHead
  · rw [decide_eq_true hdrop, Bool.or_true, Bool.true_or, Bool.true_or]
  unfold offeredTo
  cases hfull : state.full with
  | false =>
      rw [if_neg Bool.false_ne_true, List.length_append, List.length_singleton,
        Nat.add_right_comm, Nat.add_assoc]
  | true =>
      -- what is full and does not drop its head stays as it is
      have hreached : 0 < state.options.maxLength ∧
          state.options.maxLength ≤ state.messages.length := by
        simpa [full] using hfull
      have hkept : ∀ n, decide (state.messages.length + n < state.options.maxLength) = false :=
        fun n => decide_eq_false (by omega)
      rw [if_pos rfl]
      cases hpolicy : state.options.overflow with
      | dropHead => exact absurd hpolicy hdrop
      | rejectPublish => rw [hkept, hkept]
      | rejectPublishDlx => rw [hkept, hkept]

/-- A topic that overflows has something to displace. -/
theorem displaced_ne_none {state : TopicState} (hover : state.overflows = true) (message : Held) :
    state.displaced message ≠ none := by
  have hflags := hover
  simp only [overflows, Bool.and_eq_true, decide_eq_true_eq] at hflags
  unfold displaced
  rw [if_pos hover]
  cases hpolicy : state.options.overflow with
  | dropHead =>
      obtain ⟨first, rest, hmessages⟩ :=
        List.exists_cons_of_ne_nil (Broker.messages_ne_nil_of_full hflags.1.1)
      simp [hmessages]
  | rejectPublish => exact absurd hpolicy hflags.2
  | rejectPublishDlx => simp

end TopicState

namespace Broker

/-- The topics that are offered a message when this one is: its forensic destination,
if it overflows. -/
def spills (b : Broker) (topic : Topic) : List Topic :=
  if b.overflowsAt topic then [deadLetterTopic topic] else []

/-- Every one of the destinations keeps its copy, when they are offered theirs in this
order and the topics in `earlier` were offered a message before. -/
def accommodates (b : Broker) : List Topic → List Topic → Bool
  | _, [] => true
  | earlier, topic :: rest =>
      ((b.find topic).getD {}).keepsAfter (earlier.count topic) &&
        b.accommodates (b.spills topic ++ earlier) rest

/-- Seen from a broker where the topics in `more` have been offered a message. -/
theorem accommodates_of_offered {b b' : Broker} {more : List Topic} (names : List Topic)
    (hover : ∀ t ∈ names, b'.overflowsAt t = b.overflowsAt t)
    (hkeeps : ∀ t ∈ names, ∀ n, ((b'.find t).getD {}).keepsAfter n =
      ((b.find t).getD {}).keepsAfter (n + more.count t)) (earlier : List Topic) :
    b'.accommodates earlier names = b.accommodates (earlier ++ more) names := by
  induction names generalizing earlier with
  | nil => rfl
  | cons topic rest ih =>
      have hrest := ih (fun t ht => hover t (List.mem_cons_of_mem _ ht))
        (fun t ht => hkeeps t (List.mem_cons_of_mem _ ht)) (b.spills topic ++ earlier)
      have hspills : b'.spills topic = b.spills topic := by
        unfold spills
        rw [hover topic List.mem_cons_self]
      rw [accommodates, accommodates, hspills, hkeeps topic List.mem_cons_self, hrest,
        List.count_append, List.append_assoc]

section Offers

variable {b b' : Broker}

/-- Only the queues matter. -/
theorem accommodates_congr (h : ∀ t, b'.find t = b.find t) (earlier names : List Topic) :
    b'.accommodates earlier names = b.accommodates earlier names := by
  have hsame : b'.accommodates earlier names = b.accommodates (earlier ++ []) names :=
    accommodates_of_offered names (fun t _ => by rw [overflowsAt, h, overflowsAt])
      (fun t _ n => by rw [h]; rfl) earlier
  rw [hsame, List.append_nil]

/-- What the offer to one topic leaves of what the others can keep. -/
theorem Enqueued.keepsAfter {topic t : Topic} {state : TopicState} {message : Held}
    (h : Enqueued b topic state message b') (hforensic : Forensic b)
    (hfind : b.find topic = some state) (hne : t ≠ topic) (n : Nat) :
    ((b'.find t).getD {}).keepsAfter n =
      ((b.find t).getD {}).keepsAfter (n + (b.spills topic).count t) := by
  have hover : b.overflowsAt topic = state.overflows := by
    rw [overflowsAt, hfind, Option.any_some]
  unfold spills
  rw [hover]
  split
  · next hoverflows =>
      obtain ⟨moved, hmoved⟩ :=
        Option.ne_none_iff_exists'.mp (TopicState.displaced_ne_none hoverflows message)
      by_cases heq : t = deadLetterTopic topic
      · subst heq
        obtain ⟨stored, hstored, -⟩ := hforensic.of_overflows hfind hoverflows
        obtain ⟨forensic, hfound, -⟩ := Option.map_eq_some_iff.mp hstored
        rw [h.forensic moved hmoved, hfound, Option.map_some, Option.getD_some, Option.getD_some,
          TopicState.keepsAfter_offeredTo, List.count_singleton_self]
      · rw [h.others t hne fun h => absurd h heq, List.count_singleton,
          if_neg (by simpa using Ne.symm heq), Nat.add_zero]
  · next hroom =>
      have hnone : state.displaced message = none := by
        rw [TopicState.displaced, if_neg hroom]
      rw [h.others t hne fun _ => hnone, List.count_nil, Nat.add_zero]

/-- Nor does it change which of the others overflow. -/
theorem Enqueued.overflowsAt {topic t : Topic} {state : TopicState} {message : Held}
    (h : Enqueued b topic state message b') (hforensic : Forensic b)
    (hfind : b.find topic = some state) (hne : t ≠ topic) :
    b'.overflowsAt t = b.overflowsAt t := by
  by_cases hsame : t = deadLetterTopic topic → state.displaced message = none
  · rw [Broker.overflowsAt, h.others t hne hsame, Broker.overflowsAt]
  · obtain ⟨rfl, hmoved⟩ := Classical.not_imp.mp hsame
    obtain ⟨moved, hmoved⟩ := Option.ne_none_iff_exists'.mp hmoved
    have hover : state.overflows = true := by
      by_contra hnot
      rw [TopicState.displaced, if_neg hnot] at hmoved
      exact absurd hmoved (by simp)
    obtain ⟨stored, hstored, hagrees⟩ := hforensic.of_overflows hfind hover
    obtain ⟨forensic, hfound, rfl⟩ := Option.map_eq_some_iff.mp hstored
    rw [Broker.overflowsAt, h.forensic moved hmoved, hfound, Option.map_some, Option.any_some,
      Broker.overflowsAt, hfound, Option.any_some, overflows_of_agrees hagrees,
      overflows_of_agrees (by rw [TopicState.options_offeredTo]; exact hagrees)]

theorem offerAll_answers {group : String} {routing : Routing} {key : String} {body : Bytes}
    (hgroup : group ≠ "") (names : List Topic) (hnodup : names.Nodup) {b : Broker}
    (hforensic : Forensic b) (accepted : Bool) :
    (offerAll group routing key body names accepted b).1 =
      .ok (b.accommodates [] (names.filter (b.bindsTo group routing key)) && accepted) := by
  induction names generalizing b accepted with
  | nil => rfl
  | cons name rest ih =>
      obtain ⟨hname, hnodup⟩ := List.nodup_cons.mp hnodup
      cases hbound : b.bindsTo group routing key name with
      | false =>
          rw [offerAll_cons_of_not hgroup hbound, List.filter_cons_of_neg (by simp [hbound])]
          exact ih hnodup hforensic accepted
      | true =>
          obtain ⟨state, hfind⟩ := find_of_bindsTo hbound
          obtain ⟨c, hrun, henqueued⟩ := offer_enqueued hforensic hfind body
          have hoffered : Forensic (b.offered name body) :=
            hforensic.of_sameTopics (.of_find fun _ => rfl)
          have hsettings : ∀ t, c.settings t = b.settings t := henqueued.settings hfind
          have hbinds : c.bindsTo group routing key = b.bindsTo group routing key :=
            funext (bindsTo_congr hsettings group routing key)
          have hothers : ∀ t ∈ rest.filter (b.bindsTo group routing key), t ≠ name := by
            rintro t ht rfl
            exact hname (List.mem_of_mem_filter ht)
          have hlater : c.accommodates [] (rest.filter (b.bindsTo group routing key)) =
              b.accommodates ([] ++ b.spills name) (rest.filter (b.bindsTo group routing key)) := by
            have hsame : ∀ earlier names, (b.offered name body).accommodates earlier names =
                b.accommodates earlier names := accommodates_congr fun _ => rfl
            rw [← hsame]
            exact accommodates_of_offered _
              (fun t ht => henqueued.overflowsAt hoffered hfind (hothers t ht))
              (fun t ht n => henqueued.keepsAfter hoffered hfind (hothers t ht) n) []
          rw [offerAll_cons_of_bindsTo hbound, Exec.bind_ok hrun,
            ih hnodup (hforensic.of_sameTopics (sameTopics_of_settings hsettings)), hbinds,
            hlater, List.filter_cons_of_pos hbound, accommodates, hfind, Option.getD_some,
            List.count_nil, TopicState.keepsAfter_zero, List.nil_append, List.append_nil,
            Bool.and_left_comm, Bool.and_assoc]

/-- A send is answered whether every topic it offers a copy to keeps its copy. -/
theorem publish_answers (hforensic : Forensic b) (topic : Topic) (body : Bytes)
    (route : String) :
    (publish topic body route b).1 = .ok (b.accommodates [] (b.receivers topic route)) := by
  simp only [publish, Exec.get_bind, receivers]
  split
  · next hgroup =>
      have htouched : (b.touch topic).find topic = some ((b.find topic).getD {}) := by
        rw [find_touch, if_pos rfl]
      obtain ⟨b', hrun, -⟩ := offer_enqueued (hforensic.touch topic) htouched body
      rw [Exec.set_bind, hrun, accommodates, accommodates, List.count_nil, Bool.and_true,
        TopicState.keepsAfter_zero]
  · next hgroup =>
      have hopened : Forensic { b with
          groups := b.groups.insertIfNew ((b.find topic).getD {}).options.group .exact } :=
        hforensic.of_sameTopics (.of_find fun _ => rfl)
      have hnodup : b.topics.keys.Nodup := b.topics.distinct_keys.imp fun hne heq =>
        hne (Std.LawfulEqCmp.compare_eq_iff_eq.mpr heq)
      have hsame : ∀ earlier names, { b with
          groups := b.groups.insertIfNew ((b.find topic).getD {}).options.group .exact
            }.accommodates earlier names = b.accommodates earlier names :=
        accommodates_congr fun _ => rfl
      rw [Exec.set_bind, offerAll_answers hgroup b.topics.keys hnodup hopened, Bool.and_true,
        hsame]
      rfl

end Offers

end Broker

/-! ## What is counted -/

namespace InMemoryTransport

/-- The sends that a transport has counted. -/
def sentOf (s : Site) : Nat := s.self.stats.sent

theorem sent_onBroker {α : Type} (x : Exec Exn Broker α) :
    Exec.Along (Exec.Same sentOf) (onBroker x) := fun _ => rfl

theorem sent_beginEnsureTopic (topic : Topic) (options : TopicOptions) :
    Exec.Along (Exec.Same sentOf) (beginEnsureTopic topic options) := by
  apply Exec.along_bind
  · apply Exec.along_get_bind
    intro s
    split
    · exact Exec.along_throw _
    · split
      · exact sent_onBroker _
      · exact Exec.along_pure _
  · exact fun _ s => rfl

theorem sent_endEnsureTopic : Exec.Along (Exec.Same sentOf) endEnsureTopic := by
  intro s
  simp only [endEnsureTopic, Exec.get_bind]
  cases s.self.declaring with
  | none => rfl
  | some declaration => rfl

theorem sent_purgeTopic (topic : Topic) :
    Exec.Along (Exec.Same sentOf) (InMemoryTransport.purgeTopic topic) := by
  apply Exec.along_get_bind
  intro s
  split
  · exact Exec.along_throw _
  · exact sent_onBroker _

theorem sent_subscribe (topic : Topic) (handler : Bool) :
    Exec.Along (Exec.Same sentOf) (InMemoryTransport.subscribe topic handler) := by
  rintro ⟨b, t, i⟩
  rcases subscribe_run i b t topic handler with ⟨e, hrun⟩ | ⟨-, -, -, hrun⟩
  · rw [hrun]
    rfl
  · rw [hrun]
    rfl

theorem sent_pumpTurn : Exec.Along (Exec.Same sentOf) pumpTurn := by
  rintro ⟨b, t, i⟩
  rcases pumpTurn_run i b t with ⟨hsame, -⟩ | ⟨-, -, -, state, message, rest, -, -, hrun⟩
  · rw [hsame]
    rfl
  · rw [hrun]
    rfl

theorem sent_counted (t : InMemoryTransport) (result : Except Exn Unit) (d : Disposition) :
    (t.counted result d).stats.sent = t.stats.sent := by
  cases result with
  | error e => rfl
  | ok => cases d <;> rfl

theorem sent_endPump (outcome : HandlerOutcome) :
    Exec.Along (Exec.Same sentOf) (endPump outcome) := by
  rintro ⟨b, t, i⟩
  cases hhandling : t.handling with
  | none =>
      rw [endPump_run_none i b t outcome hhandling]
      rfl
  | some message =>
      cases outcome with
      | threw what =>
          rw [endPump_run_threw i b t what hhandling]
          rfl
      | returned d =>
          by_cases hd : d = .deferred
          · subst hd
            rw [endPump_run_deferred i b t hhandling]
            rfl
          · rw [endPump_run i b t hd hhandling]
            exact sent_counted _ _ d

theorem sent_settle (tag : Nat) (d : Disposition) :
    Exec.Along (Exec.Same sentOf) (InMemoryTransport.settle tag d) := by
  rintro ⟨b, t, i⟩
  by_cases hd : d = .deferred
  · subst hd
    obtain ⟨e, hrun⟩ := settle_run_deferred i b t tag
    rw [hrun]
    rfl
  · by_cases hnone : t.connected = true → t.outstanding[tag]? = none
    · obtain ⟨what, hrun⟩ := settle_run_none i b t hd hnone
      rw [hrun]
      rfl
    · obtain ⟨hconnected, hsome⟩ := Classical.not_imp.mp hnone
      obtain ⟨message, hmessage⟩ := Option.ne_none_iff_exists'.mp hsome
      rw [settle_run i b t hd hconnected hmessage]
      exact sent_counted _ _ d

/-- A send that gets past its checks is counted whatever it is answered. -/
theorem send_counts (i : Nat) {b : Broker} (t : InMemoryTransport) {options : SendOptions}
    (hpublishes : t.publishes options = true) {topic : Topic} {payload : Bytes} {accepted : Bool}
    (hanswer : (Broker.publish topic payload options.route b).1 = .ok accepted) :
    (InMemoryTransport.send topic payload options ⟨b, t, i⟩).1 = .ok accepted ∧
      (InMemoryTransport.send topic payload options ⟨b, t, i⟩).2.self.stats.sent =
        t.stats.sent + 1 := by
  simp only [publishes, Bool.and_eq_true, Bool.not_eq_true'] at hpublishes
  obtain ⟨⟨-, hconnected⟩, hdurable⟩ := hpublishes
  simp only [InMemoryTransport.send, Exec.get_bind]
  rw [if_neg (by simp [hconnected]), if_neg (by simp [hdurable]), Exec.bind_apply, onBroker_apply]
  rcases hrun : Broker.publish topic payload options.route b with ⟨r, c⟩
  rw [hrun] at hanswer
  obtain rfl : r = .ok accepted := hanswer
  exact ⟨rfl, rfl⟩

end InMemoryTransport

namespace System

open InMemoryTransport

/-- The sends that transport `i` has counted. -/
def sent (s : System) (i : Nat) : Nat := ((s.transports[i]?).map (·.stats.sent)).getD 0

theorem sent_call {α : Type} {s : System} {i j : Nat} {may : InMemoryTransport → Bool}
    {x : Method α} (h : j = i → Exec.Along (Exec.Same sentOf) x) :
    (s.call j may x).sent i = s.sent i := by
  unfold System.call
  cases hlookup : s.transports[j]? with
  | none => rfl
  | some t =>
      dsimp only
      split
      · unfold sent
        dsimp only
        rw [List.getElem?_set]
        split
        · next heq =>
            subst heq
            obtain ⟨hlt, -⟩ := List.getElem?_eq_some_iff.mp hlookup
            rw [if_pos hlt, hlookup]
            exact h rfl ⟨s.broker, t, j⟩
        · rfl
      · rfl

/-- Only a send through a transport is counted by it as one. -/
theorem sent_step {s : System} {a : Action} {i : Nat}
    (h : ∀ topic payload options, a ≠ .send i topic payload options) :
    (s.step a).sent i = s.sent i := by
  cases a with
  | create =>
      unfold sent System.step
      dsimp only
      rcases Nat.lt_trichotomy i s.transports.length with hlt | rfl | hgt
      · rw [List.getElem?_append_left hlt]
      · rw [List.getElem?_concat_length, List.getElem?_eq_none (le_refl _)]
        rfl
      · rw [List.getElem?_eq_none (by rw [List.length_append]; exact hgt),
          List.getElem?_eq_none hgt.le]
  | connect j => exact sent_call fun _ _ => rfl
  | close j =>
      exact sent_call fun _ s => congrArg Stats.sent (gone_close s.number s.broker s.self).stats
  | destroy j =>
      exact sent_call fun _ s => congrArg Stats.sent (gone_destroy s.number s.broker s.self).stats
  | ensureTopic j topic options => exact sent_call fun _ => sent_beginEnsureTopic topic options
  | ensureTopicSource j => exact sent_call fun _ => sent_endEnsureTopic
  | send j topic payload options =>
      exact sent_call fun heq => absurd (by rw [heq]) (h topic payload options)
  | subscribe j topic handler => exact sent_call fun _ => sent_subscribe topic handler
  | purgeTopic j topic => exact sent_call fun _ => sent_purgeTopic topic
  | pump j => exact sent_call fun _ => sent_pumpTurn
  | handlerReturns j outcome => exact sent_call fun _ => sent_endPump outcome
  | settle j tag d => exact sent_call fun _ => sent_settle tag d

end System

end Motus.InMemory
