import Motus.InMemory.Standing

set_option autoImplicit false

/-!
# The order of deliveries

The deliveries made from a topic so far, followed by what still waits there, are
in order of their sequence numbers, whatever was requeued, returned, evicted or
purged on the way, as long as the topic has one subscriber at a time.  A transport
is handed nothing while a delivery of its own is unresolved.
-/

namespace Motus.InMemory

open Motus.Foundation Motus.Transport

/-- A later message of a topic: its number is not lower, and the same number only
comes again flagged as redelivered. -/
def Follows (m m' : Held) : Prop :=
  m.sequence ≤ m'.sequence ∧ (m.sequence = m'.sequence → m'.redelivered = true)

/-- The deliveries made from a topic, in order. -/
def deliveriesFrom (topic : Topic) (history : List Entry) : List Held :=
  history.filterMap fun
    | .delivered _ t message => if t = topic then some message else none
    | _ => none

/-- One entry of the history, as far as the open deliveries of transport `i` go. -/
def pendingAfter (i : Nat) (pending : Finset Nat) : Entry → Finset Nat
  | .delivered j _ message => if j = i then insert message.sequence pending else pending
  | .resolved j n => if j = i then pending.erase n else pending
  | _ => pending

/-- The deliveries of transport `i` that are not resolved. -/
def unresolvedBy (i : Nat) (history : List Entry) : Finset Nat :=
  history.foldl (pendingAfter i) ∅

theorem deliveriesFrom_append (topic : Topic) (history history' : List Entry) :
    deliveriesFrom topic (history ++ history') =
      deliveriesFrom topic history ++ deliveriesFrom topic history' :=
  List.filterMap_append

theorem unresolvedBy_concat (i : Nat) (history : List Entry) (entry : Entry) :
    unresolvedBy i (history ++ [entry]) = pendingAfter i (unresolvedBy i history) entry := by
  simp [unresolvedBy]

namespace Broker

/-- The messages that wait at a topic. -/
def waitingAt (b : Broker) (topic : Topic) : List Held := ((b.find topic).getD {}).messages

/-- Everything delivered from a topic, then everything that waits there. -/
def line (b : Broker) (topic : Topic) : List Held :=
  deliveriesFrom topic b.history ++ b.waitingAt topic

/-- The line of a topic is in order. -/
structure InOrder (b : Broker) (topic : Topic) : Prop where
  sorted : (b.line topic).Pairwise Follows
  bounded : ∀ m ∈ b.line topic, m.sequence ≤ b.sequence

/-- The message was the last one delivered from the topic. -/
def Latest (b : Broker) (topic : Topic) (message : Held) : Prop :=
  (∃ m ∈ deliveriesFrom topic b.history, m.sequence = message.sequence) ∧
    ∀ m ∈ deliveriesFrom topic b.history, m.sequence ≤ message.sequence

theorem Latest.of_deliveries {b b' : Broker} {topic : Topic} {message : Held}
    (h : b.Latest topic message)
    (hsame : deliveriesFrom topic b'.history = deliveriesFrom topic b.history) :
    b'.Latest topic message := by
  rw [Latest, hsame]
  exact h

section Line

variable {b b' : Broker} {topic : Topic}

/-- Messages leave the line; the rest stays. -/
theorem InOrder.of_sublist (h : InOrder b topic)
    (hsub : (b'.line topic).Sublist (b.line topic)) (hsequence : b.sequence ≤ b'.sequence) :
    InOrder b' topic :=
  ⟨h.sorted.sublist hsub, fun m hm => Nat.le_trans (h.bounded m (hsub.mem hm)) hsequence⟩

theorem InOrder.of_line (h : InOrder b topic) (hline : b'.line topic = b.line topic)
    (hsequence : b.sequence ≤ b'.sequence) : InOrder b' topic :=
  h.of_sublist (by rw [hline]) hsequence

/-- Newly numbered messages come to the end of the line. -/
theorem InOrder.of_evolves (h : InOrder b topic) (hevolves : Evolves b.sequence b b') :
    InOrder b' topic := by
  cases hfind : b.find topic with
  | none =>
      refine h.of_line ?_ hevolves.sequence_le
      rw [line, waitingAt, hevolves.history, hevolves.absent topic hfind, line, waitingAt, hfind]
  | some state =>
      obtain ⟨state', hfind', hadvance⟩ := hevolves.present topic state hfind
      obtain ⟨k, fresh, hmessages, hfresh, hnew⟩ := hadvance.messages
      have hline : b'.line topic =
          (deliveriesFrom topic b.history ++ state.messages.drop k) ++ fresh := by
        rw [line, waitingAt, hevolves.history, hfind', Option.getD_some, hmessages,
          List.append_assoc]
      have hkept : (deliveriesFrom topic b.history ++ state.messages.drop k).Sublist
          (b.line topic) := by
        rw [line, waitingAt, hfind, Option.getD_some]
        exact (List.Sublist.refl _).append (List.drop_sublist _ _)
      constructor
      · rw [hline, List.pairwise_append]
        have hsorted : fresh.Pairwise Follows :=
          hfresh.imp fun hlt => ⟨hlt.le, fun heq => absurd heq hlt.ne⟩
        refine ⟨h.sorted.sublist hkept, hsorted, fun m hm m' hm' => ?_⟩
        have hle := h.bounded m (hkept.mem hm)
        have hlt := (hnew m' hm').1
        exact ⟨by omega, fun heq => absurd heq (by omega)⟩
      · intro m hm
        rw [hline, List.mem_append] at hm
        rcases hm with hm | hm
        · exact Nat.le_trans (h.bounded m (hkept.mem hm)) hevolves.sequence_le
        · exact (hnew m hm).2.1

/-- The last delivery goes back to the front of what waits. -/
theorem InOrder.putBack {message : Held} (h : InOrder b topic) (hlatest : b.Latest topic message)
    (hdeliveries : deliveriesFrom topic b'.history = deliveriesFrom topic b.history)
    (hwaiting : b'.waitingAt topic =
      { message with redelivered := true } :: b.waitingAt topic)
    (hsequence : b'.sequence = b.sequence) : InOrder b' topic := by
  obtain ⟨⟨last, hlast, heq⟩, hmax⟩ := hlatest
  have hsorted := h.sorted
  rw [line, List.pairwise_append] at hsorted
  obtain ⟨hdelivered, hwaits, hcross⟩ := hsorted
  have hline : b'.line topic = deliveriesFrom topic b.history ++
      { message with redelivered := true } :: b.waitingAt topic := by
    rw [line, hdeliveries, hwaiting]
  constructor
  · rw [hline, List.pairwise_append]
    refine ⟨hdelivered, List.pairwise_cons.mpr ⟨fun m hm => ?_, hwaits⟩, fun m hm m' hm' => ?_⟩
    · -- the message stands where the last delivery stood
      have hfollows := hcross last hlast m hm
      rw [Follows, heq] at hfollows
      exact hfollows
    · rcases List.mem_cons.mp hm' with rfl | hm'
      · exact ⟨hmax m hm, fun _ => rfl⟩
      · exact hcross m hm m' hm'
  · intro m hm
    rw [hline, List.mem_append, List.mem_cons] at hm
    rw [hsequence]
    rcases hm with hm | rfl | hm
    · exact h.bounded m (List.mem_append_left _ hm)
    · have hle := h.bounded last (List.mem_append_left _ hlast)
      rw [heq] at hle
      exact hle
    · exact h.bounded m (List.mem_append_right _ hm)

end Line

end Broker

namespace InMemoryTransport

/-- The transport has taken the message and not resolved it, or runs its handler. -/
def Holds (t : InMemoryTransport) (message : Held) : Prop :=
  t.handling = some message ∨ ∃ tag : Nat, t.outstanding[tag]? = some message

theorem Holds.busy {t : InMemoryTransport} {message : Held} (h : t.Holds message) : t.busy := by
  rcases h with h | ⟨tag, h⟩
  · exact .inr (by rw [h, Option.isSome_some])
  · exact .inl (isEmpty_of_getElem? h)

/-- Only a subscribed transport holds anything. -/
theorem Tidy.subscribed_of_holds {t : InMemoryTransport} (h : t.Tidy) {message : Held}
    (hholds : t.Holds message) : t.subscribed = true := by
  cases hsubscribed : t.subscribed with
  | true => rfl
  | false =>
      obtain ⟨hempty, hnone⟩ := h.unsubscribed hsubscribed
      rcases hholds.busy with hbusy | hbusy
      · rw [hempty] at hbusy
        exact absurd hbusy (by simp)
      · rw [hnone] at hbusy
        exact absurd hbusy (by simp)

end InMemoryTransport

open InMemoryTransport

namespace Broker

section Line

variable {b b' : Broker} {topic : Topic}

/-- The lines of a topic whose queue and deliveries are the same. -/
theorem line_congr (hhistory : deliveriesFrom topic b'.history = deliveriesFrom topic b.history)
    (hfind : b'.find topic = b.find topic) : b'.line topic = b.line topic := by
  rw [line, hhistory, waitingAt, hfind, line, waitingAt]

theorem deliveriesFrom_resolved (b : Broker) (topic : Topic) (i n : Nat) :
    deliveriesFrom topic (b.log (.resolved i n)).history = deliveriesFrom topic b.history := by
  simp [history_log, Entry.ofTransport, deliveriesFrom]

theorem history_performed (b : Broker) (topic : Topic) (message : Held) (d : Disposition) :
    (b.performed topic message d).history = b.history := by
  cases d with
  | ack => exact history_close b message .acked
  | requeue => rfl
  | deferred => rfl
  | reject => exact (deadLetterVia_evolves (enqueueLocked_evolves _) topic message b).1.history

theorem history_ensureTopic (topic : Topic) (options : TopicOptions) (b : Broker) :
    (ensureTopic topic options b).2.history = b.history := by
  obtain ⟨groups, ⟨hsame, -⟩ | ⟨-, hnew⟩⟩ := ensureTopic_apply topic options b
  · rw [hsame]
    rfl
  · rw [hnew]
    rfl

theorem history_publish (topic : Topic) (body : Bytes) (route : String) (b : Broker) :
    (publish topic body route b).2.history = b.history :=
  (publish_evolves topic body route b).history.trans (history_opened b topic)

theorem history_purge (topic : Topic) (b : Broker) : (purge topic b).2.history = b.history := by
  simp only [purge, Exec.get_bind]
  cases b.find topic with
  | none => rfl
  | some state =>
      have hnone : (state.messages.map (Entry.closed · .purged)).filter Entry.ofTransport = [] := by
        rw [List.filter_eq_nil_iff]
        intro entry hentry
        obtain ⟨message, -, rfl⟩ := List.mem_map.mp hentry
        simp [Entry.ofTransport]
      exact (List.filter_append _ _).trans (by rw [hnone, List.append_nil]; rfl)

theorem waitingAt_ensureTopic (topic t : Topic) (options : TopicOptions) (b : Broker) :
    (ensureTopic topic options b).2.waitingAt t = b.waitingAt t := by
  obtain ⟨groups, ⟨hsame, -⟩ | ⟨hnone, hnew⟩⟩ := ensureTopic_apply topic options b
  · rw [hsame]
    rfl
  · rw [hnew, waitingAt, find_write]
    split
    · next heq =>
        subst heq
        rw [waitingAt, hnone]
        rfl
    · rfl

theorem InOrder.ensureTopic (h : InOrder b topic) (t : Topic) (options : TopicOptions) :
    InOrder (ensureTopic t options b).2 topic := by
  refine h.of_line ?_ ?_
  · rw [line, history_ensureTopic, waitingAt_ensureTopic, line]
  · obtain ⟨groups, ⟨hsame, -⟩ | ⟨-, hnew⟩⟩ := ensureTopic_apply t options b
    · rw [hsame]
    · rw [hnew]
      exact Nat.le_refl _

theorem InOrder.publish (h : InOrder b topic) (t : Topic) (body : Bytes) (route : String) :
    InOrder (publish t body route b).2 topic := by
  have hopened : InOrder (b.opened t) topic := by
    refine h.of_line ?_ (by rw [sequence_opened])
    rw [line, history_opened, waitingAt, find_opened, line, waitingAt]
    split
    · next heq => rw [heq, Option.getD_some]
    · rfl
  refine hopened.of_evolves ?_
  rw [sequence_opened]
  exact publish_evolves t body route b

theorem InOrder.purge (h : InOrder b topic) (t : Topic) : InOrder (purge t b).2 topic := by
  have hhistory := history_purge t b
  revert hhistory
  simp only [Broker.purge, Exec.get_bind]
  cases hfind : b.find t with
  | none => exact fun _ => h
  | some state =>
      intro hhistory
      change (b.purged t state).history = b.history at hhistory
      change InOrder (b.purged t state) topic
      refine h.of_sublist ?_ (Nat.le_refl _)
      rw [line, hhistory, line]
      refine (List.Sublist.refl _).append ?_
      have hwaiting : (b.purged t state).waitingAt topic =
          (b.write t { state with messages := [] }).waitingAt topic := rfl
      rw [hwaiting, waitingAt, find_write]
      split
      · exact List.nil_sublist _
      · exact List.Sublist.refl _

/-- Carrying out a disposition on the last delivery. -/
theorem InOrder.performed (h : InOrder b topic) {t : Topic} {message : Held}
    (hlatest : t = topic → b.Latest topic message) (d : Disposition) :
    InOrder (b.performed t message d) topic := by
  cases d with
  | ack => exact h.of_line (line_congr (by rw [Broker.performed, history_close]) rfl) (Nat.le_refl _)
  | deferred => exact h
  | reject =>
      exact h.of_evolves (deadLetterVia_evolves (enqueueLocked_evolves _) t message b).1
  | requeue =>
      by_cases heq : t = topic
      · subst heq
        refine h.putBack (hlatest rfl) rfl ?_ rfl
        rw [Broker.performed, waitingAt, find_pushFront, if_pos rfl]
        rfl
      · refine h.of_line (line_congr rfl ?_) (Nat.le_refl _)
        rw [Broker.performed, find_pushFront, if_neg heq]

theorem InOrder.log_resolved (h : InOrder b topic) (i n : Nat) :
    InOrder (b.log (.resolved i n)) topic :=
  h.of_line (line_congr (deliveriesFrom_resolved b topic i n) rfl) (Nat.le_refl _)

theorem Latest.log_resolved {message : Held} (h : b.Latest topic message) (i n : Nat) :
    (b.log (.resolved i n)).Latest topic message :=
  h.of_deliveries (deliveriesFrom_resolved b topic i n)

/-- The head of a topic is delivered: the line stays, and it was the latest. -/
theorem InOrder.handedOut (h : InOrder b topic) {t : Topic} {state : TopicState} {message : Held}
    {rest : List Held} (hfind : b.find t = some state) (hmessages : state.messages = message :: rest)
    (i : Nat) : InOrder (b.handedOut i t state message rest) topic ∧
      (t = topic → (b.handedOut i t state message rest).Latest topic message) := by
  have hhistory : (b.handedOut i t state message rest).history =
      b.history ++ [.delivered i t message] := by
    simp [Broker.handedOut, history_log, Entry.ofTransport]
  by_cases heq : t = topic
  · subst heq
    have hdeliveries : deliveriesFrom t (b.handedOut i t state message rest).history =
        deliveriesFrom t b.history ++ [message] := by
      rw [hhistory, deliveriesFrom_append]
      simp [deliveriesFrom]
    have hbefore : b.line t = deliveriesFrom t b.history ++ message :: rest := by
      rw [line, waitingAt, hfind, Option.getD_some, hmessages]
    have hline : (b.handedOut i t state message rest).line t = b.line t := by
      rw [hbefore, line, hdeliveries, waitingAt, Broker.handedOut, find_log, find_write_self,
        Option.getD_some, List.append_assoc, List.singleton_append]
    refine ⟨h.of_line hline (Nat.le_refl _), fun _ => ?_⟩
    have hsorted := h.sorted
    rw [hbefore, List.pairwise_append] at hsorted
    rw [Latest, hdeliveries]
    refine ⟨⟨message, List.mem_append_right _ (List.mem_singleton_self _), rfl⟩, fun m hm => ?_⟩
    rcases List.mem_append.mp hm with hm | hm
    · exact (hsorted.2.2 m hm message List.mem_cons_self).1
    · rw [List.mem_singleton.mp hm]
  · refine ⟨h.of_line (line_congr ?_ ?_) (Nat.le_refl _), fun hcontra => absurd hcontra heq⟩
    · rw [hhistory, deliveriesFrom_append]
      simp [deliveriesFrom, heq]
    · rw [Broker.handedOut, find_log, find_write_of_ne _ heq]

end Line

end Broker

/-! ## One call -/

section Site

variable {i : Nat} {a : Action} {b b' : Broker} {t t' : InMemoryTransport} {topic : Topic}

/-- What a call adds to the history, and what the transport then has outstanding. -/
theorem SiteEffect.history (heffect : SiteEffect i a b t b' t') (htidy : t.Tidy) :
    (b'.history = b.history ∧ ∀ n : Nat, t'.outstanding[n]? = t.outstanding[n]?) ∨
    (∃ n : Nat, b'.history = b.history ++ [.resolved i n] ∧
      (∀ k : Nat, t'.outstanding[k]? = if k = n then none else t.outstanding[k]?) ∧
      ((t.outstanding[n]?).isSome = true ∨ ∃ m, t.handling = some m ∧ m.sequence = n)) ∨
    (∃ message, b'.history = b.history ++ [.delivered i t.topic message] ∧
      t.handler = true ∧ t.handling = none ∧ t.outstanding.isEmpty = true ∧
      ∀ k : Nat, t'.outstanding[k]? = if k = message.sequence then some message else none) := by
  have hresolved : ∀ n : Nat, (b.log (.resolved i n)).history = b.history ++ [.resolved i n] :=
    fun n => by simp [Broker.history_log, Entry.ofTransport]
  have herase : ∀ n : Nat, t'.outstanding = t.outstanding.erase n →
      ∀ k : Nat, t'.outstanding[k]? = if k = n then none else t.outstanding[k]? := by
    intro n houtstanding k
    rw [houtstanding, getElem?_erase]
  cases heffect with
  | quiet hkept houtstanding hhandling => exact .inl ⟨rfl, by simp [houtstanding]⟩
  | declaredForensic topic options hkept hdeclaring houtstanding hhandling =>
      exact .inl ⟨Broker.history_ensureTopic _ _ b, by simp [houtstanding]⟩
  | declared topic options hdeclaring hkept houtstanding hhandling =>
      exact .inl ⟨Broker.history_ensureTopic _ _ b, by simp [houtstanding]⟩
  | published topic payload options haction hpublishes hkept houtstanding hhandling =>
      exact .inl ⟨Broker.history_publish _ _ _ b, by simp [houtstanding]⟩
  | subscribed topic hfree => exact .inl ⟨rfl, fun _ => rfl⟩
  | purged topic => exact .inl ⟨Broker.history_purge topic b, fun _ => rfl⟩
  | delivered state message rest hhandler hempty hidle hfind hmessages hkept houtstanding
      hhandling =>
      refine .inr (.inr ⟨message, ?_, hhandler, hidle, hempty, fun k => ?_⟩)
      · simp [Broker.handedOut, Broker.history_log, Entry.ofTransport]
      · rw [houtstanding, getElem?_insertIfNew_of_isEmpty hempty]
  | handled message d hd hmessage hkept houtstanding hhandling =>
      refine .inr (.inl ⟨message.sequence, ?_, herase _ houtstanding, .inr ⟨message, hmessage, rfl⟩⟩)
      rw [Broker.history_performed, hresolved]
  | settled tag message d haction hd hmessage hkept houtstanding hhandling =>
      refine .inr (.inl ⟨tag, ?_, herase _ houtstanding, .inl ?_⟩)
      · rw [Broker.history_performed, hresolved]
      · rw [hmessage, Option.isSome_some]
  | left hidle houtstanding hhandling =>
      rcases htidy.unresolved_cases with hempty | ⟨message, hmessage⟩
      · rw [unresolved_of_isEmpty hempty]
        exact .inl ⟨rfl, fun n => by rw [getElem?_of_isEmpty houtstanding,
          getElem?_of_isEmpty hempty]⟩
      · rw [htidy.unresolved_of_getElem? hmessage]
        refine .inr (.inl ⟨message.sequence, ?_, fun k => ?_, .inl ?_⟩)
        · have hone : b.putBackAll i t.topic [message] = b.putBackOne i t.topic message := rfl
          rw [hone, Broker.putBackOne, Broker.history_log]
          rfl
        · rw [getElem?_of_isEmpty houtstanding]
          split
          · rfl
          · next hne =>
              cases hk : t.outstanding[k]? with
              | none => rfl
              | some other =>
                  -- a second delivery would be the first one
                  have hlist := (htidy.sole _ _ hmessage).1.symm.trans (htidy.sole k other hk).1
                  exact absurd (congrArg Prod.fst (List.singleton_inj.mp hlist)).symm hne
        · rw [hmessage, Option.isSome_some]

/-- A call keeps the line of a topic in order when the transport, if it is the
subscriber, holds nothing but the last delivery. -/
theorem SiteEffect.inOrder (heffect : SiteEffect i a b t b' t') (htidy : t.Tidy)
    (hlatest : t.topic = topic → ∀ message, t.Holds message → b.Latest topic message)
    (h : b.InOrder topic) : b'.InOrder topic := by
  have hperformed : ∀ (n : Nat) (message : Held) (d : Disposition), t.Holds message →
      ((b.log (.resolved i n)).performed t.topic message d).InOrder topic :=
    fun n message d hholds => (h.log_resolved i n).performed
      (fun htopic => (hlatest htopic message hholds).log_resolved i n) d
  cases heffect with
  | quiet => exact h
  | declaredForensic topic' options => exact h.ensureTopic _ _
  | declared topic' options => exact h.ensureTopic topic' options
  | published topic' payload options => exact h.publish topic' payload options.route
  | subscribed topic' hfree => exact h
  | purged topic' => exact h.purge topic'
  | delivered state message rest hhandler hempty hidle hfind hmessages =>
      exact (h.handedOut hfind hmessages i).1
  | handled message d hd hmessage => exact hperformed _ message d (.inl hmessage)
  | settled tag message d haction hd hmessage => exact hperformed tag message d (.inr ⟨tag, hmessage⟩)
  | left =>
      rcases htidy.unresolved_cases with hempty | ⟨message, hmessage⟩
      · rw [unresolved_of_isEmpty hempty]
        exact h
      · rw [htidy.unresolved_of_getElem? hmessage]
        have hback : (b.pushFront t.topic { message with redelivered := true }).InOrder topic :=
          h.performed (fun htopic => hlatest htopic message (.inr ⟨_, hmessage⟩)) .requeue
        exact hback.log_resolved i message.sequence

/-- What a transport holds after a call: what it held before, or the head of its
topic, which is then the last delivery. -/
theorem SiteEffect.holds (heffect : SiteEffect i a b t b' t') (htidy : t.Tidy) {message : Held}
    (hholds : t'.Holds message) : t'.topic = t.topic ∧
      (t.Holds message ∨ ∃ state rest, b.find t.topic = some state ∧
        state.messages = message :: rest ∧ b' = b.handedOut i t.topic state message rest) := by
  have hsame : t'.topic = t.topic → (∀ n : Nat, t'.outstanding[n]? = some message →
      t.outstanding[n]? = some message) → (t'.handling = t.handling ∨ t'.handling = none) →
      t'.topic = t.topic ∧ (t.Holds message ∨ ∃ state rest, b.find t.topic = some state ∧
        state.messages = message :: rest ∧ b' = b.handedOut i t.topic state message rest) := by
    intro htopic houtstanding hhandling
    refine ⟨htopic, .inl ?_⟩
    rcases hholds with hholds | ⟨tag, hholds⟩
    · rcases hhandling with hhandling | hhandling
      · exact .inl (hhandling ▸ hholds)
      · rw [hhandling] at hholds
        exact absurd hholds (by simp)
    · exact .inr ⟨tag, houtstanding tag hholds⟩
  have herased : ∀ n k : Nat, (t.outstanding.erase n)[k]? = some message →
      t.outstanding[k]? = some message := by
    intro n k hk
    rw [getElem?_erase] at hk
    split at hk
    · exact absurd hk (by simp)
    · exact hk
  cases heffect with
  | quiet hkept houtstanding hhandling =>
      exact hsame hkept.topic (by simp [houtstanding]) hhandling
  | declaredForensic topic' options hkept hdeclaring houtstanding hhandling =>
      exact hsame hkept.topic (by simp [houtstanding]) (.inl hhandling)
  | declared topic' options hdeclaring hkept houtstanding hhandling =>
      exact hsame hkept.topic (by simp [houtstanding]) (.inl hhandling)
  | published topic' payload options haction hpublishes hkept houtstanding hhandling =>
      exact hsame hkept.topic (by simp [houtstanding]) (.inl hhandling)
  | subscribed topic' hfree =>
      have hsubscribed : t.subscribed = true := htidy.subscribed_of_holds hholds
      rw [hfree] at hsubscribed
      exact absurd hsubscribed (by simp)
  | purged topic' => exact hsame rfl (fun _ h => h) (.inl rfl)
  | delivered state head rest hhandler hempty hidle hfind hmessages hkept houtstanding hhandling =>
      refine ⟨hkept.topic, .inr ⟨state, rest, hfind, ?_⟩⟩
      have hhead : message = head := by
        rcases hholds with hholds | ⟨tag, hholds⟩
        · exact Option.some.inj (hholds.symm.trans hhandling)
        · rw [houtstanding, getElem?_insertIfNew_of_isEmpty hempty] at hholds
          split at hholds
          · exact (Option.some.inj hholds).symm
          · exact absurd hholds (by simp)
      subst hhead
      exact ⟨hmessages, rfl⟩
  | handled m d hd hmessage hkept houtstanding hhandling =>
      exact hsame hkept.topic (by rw [houtstanding]; exact herased _) (.inr hhandling)
  | settled tag m d haction hd hmessage hkept houtstanding hhandling =>
      exact hsame hkept.topic (by rw [houtstanding]; exact herased _) (.inl hhandling)
  | left hidle houtstanding hhandling =>
      rcases hholds with hholds | ⟨tag, hholds⟩
      · rw [hhandling] at hholds
        exact absurd hholds (by simp)
      · rw [getElem?_of_isEmpty houtstanding] at hholds
        exact absurd hholds (by simp)

end Site

/-! ## Runs -/

namespace System

/-- The transport is subscribed to the topic. -/
def subscribedTo (topic : Topic) (t : InMemoryTransport) : Bool :=
  t.subscribed && decide (t.topic = topic)

/-- No two transports are subscribed to the topic. -/
def AtMostOneSubscriber (topic : Topic) (s : System) : Prop :=
  s.transports.countP (subscribedTo topic) ≤ 1

instance (topic : Topic) : DecidablePred (AtMostOneSubscriber topic) :=
  fun s => inferInstanceAs (Decidable (s.transports.countP (subscribedTo topic) ≤ 1))

theorem not_lt_of_countP_le_one {l : List InMemoryTransport} {p : InMemoryTransport → Bool}
    (h : l.countP p ≤ 1) {i j : Nat} {t u : InMemoryTransport} (ht : l[i]? = some t)
    (hu : l[j]? = some u) (hpt : p t = true) (hpu : p u = true) : ¬ i < j := by
  intro hij
  have hfirst : 0 < (l.take (i + 1)).countP p := by
    refine List.countP_pos_iff.mpr ⟨t, List.mem_of_getElem? (i := i) ?_, hpt⟩
    rw [List.getElem?_take_of_lt (Nat.lt_succ_self i), ht]
  have hsecond : 0 < (l.drop (i + 1)).countP p := by
    refine List.countP_pos_iff.mpr ⟨u, List.mem_of_getElem? (i := j - (i + 1)) ?_, hpu⟩
    rw [List.getElem?_drop, ← hu]
    congr 1
    omega
  have hsplit : (l.take (i + 1) ++ l.drop (i + 1)).countP p = _ := List.countP_append
  rw [List.take_append_drop] at hsplit
  omega

theorem AtMostOneSubscriber.eq {topic : Topic} {s : System} (h : AtMostOneSubscriber topic s)
    {i j : Nat} {t u : InMemoryTransport} (ht : s.transports[i]? = some t)
    (hu : s.transports[j]? = some u) (hst : t.subscribed = true ∧ t.topic = topic)
    (hsu : u.subscribed = true ∧ u.topic = topic) : i = j := by
  have hpt : subscribedTo topic t = true := by simp [subscribedTo, hst]
  have hpu : subscribedTo topic u = true := by simp [subscribedTo, hsu]
  have hnot := not_lt_of_countP_le_one h ht hu hpt hpu
  have hnot' := not_lt_of_countP_le_one h hu ht hpu hpt
  omega

/-- Whoever holds a message of the topic holds the last one delivered. -/
def HeldLatest (topic : Topic) (s : System) : Prop :=
  ∀ (i : Nat) (t : InMemoryTransport), s.transports[i]? = some t → t.topic = topic →
    ∀ message, t.Holds message → s.broker.Latest topic message

/-- What a transport has outstanding is what the history says is unresolved. -/
def Booked (s : System) : Prop :=
  ∀ i n : Nat, n ∈ unresolvedBy i s.broker.history ↔
    ∃ t : InMemoryTransport, s.transports[i]? = some t ∧ (t.outstanding[n]?).isSome = true

/-- Every delivery in the history was made by a transport with nothing unresolved. -/
def Prompt (history : List Entry) : Prop :=
  ∀ before after i topic message, history = before ++ .delivered i topic message :: after →
    unresolvedBy i before = ∅

/-- What a single subscriber sees of its topic. -/
structure Fifo (topic : Topic) (s : System) : Prop where
  /-- the numbers never decrease, and one that repeats is flagged as redelivered -/
  ordered : (deliveriesFrom topic s.broker.history).Pairwise Follows
  /-- nothing is delivered from the topic to a transport that has not resolved an
  earlier delivery -/
  prompt : ∀ before after i message,
    s.broker.history = before ++ .delivered i topic message :: after → unresolvedBy i before = ∅

/-- The history grows by one entry, which is a delivery only if nothing is open. -/
theorem Prompt.concat {history : List Entry} (h : Prompt history) (entry : Entry)
    (hentry : ∀ i topic message, entry = .delivered i topic message →
      unresolvedBy i history = ∅) : Prompt (history ++ [entry]) := by
  intro before after i topic message heq
  rcases after.eq_nil_or_concat with rfl | ⟨after, last, rfl⟩
  · obtain ⟨rfl, hlast⟩ := List.append_inj' heq rfl
    exact hentry i topic message (List.singleton_inj.mp hlast)
  · rw [List.concat_eq_append, ← List.cons_append, ← List.append_assoc] at heq
    exact h before after i topic message (List.append_inj' heq rfl).1

/-- The state of everything the order of deliveries rests on. -/
structure Sequenced (topic : Topic) (s : System) : Prop where
  standing : Standing s
  inOrder : s.broker.InOrder topic
  heldLatest : HeldLatest topic s
  booked : Booked s
  prompt : Prompt s.broker.history

theorem sequenced_init (topic : Topic) : Sequenced topic machine.init := by
  refine ⟨standing_init, ⟨?_, ?_⟩, ?_, ?_, ?_⟩
  · exact List.Pairwise.nil
  · intro m hm
    exact absurd hm List.not_mem_nil
  · intro i t ht
    exact absurd ht (by simp [machine])
  · intro i n
    simp [machine, Broker.history, unresolvedBy]
  · intro before after i t message heq
    exact absurd heq (by simp [machine, Broker.history])

section Step

variable {topic : Topic} {s : System} {i : Nat} {a : Action} {b' : Broker}
  {t t' : InMemoryTransport}

/-- The transport that was called is found as the call left it. -/
theorem lookup_set_self (hlookup : s.transports[i]? = some t) (t' : InMemoryTransport) :
    (s.transports.set i t')[i]? = some t' := by
  obtain ⟨hlt, -⟩ := List.getElem?_eq_some_iff.mp hlookup
  exact List.getElem?_set_self hlt

/-- A transport's entries say nothing about the others. -/
theorem pendingAfter_of_ne {i j : Nat} (h : i ≠ j) (pending : Finset Nat) :
    (∀ topic message, pendingAfter j pending (.delivered i topic message) = pending) ∧
      ∀ n, pendingAfter j pending (.resolved i n) = pending := by
  simp [pendingAfter, h]

theorem Booked.site (h : Booked s) (hlookup : s.transports[i]? = some t)
    (htidy : t.Tidy) (heffect : SiteEffect i a s.broker t b' t') :
    Booked ⟨b', s.transports.set i t'⟩ := by
  have hself := lookup_set_self hlookup t'
  have hbefore : ∀ n, n ∈ unresolvedBy i s.broker.history ↔ (t.outstanding[n]?).isSome = true := by
    intro n
    rw [h i n]
    simp [hlookup]
  -- for the transport that was called, and for the others
  have hsplit : (∀ n, n ∈ unresolvedBy i b'.history ↔ (t'.outstanding[n]?).isSome = true) →
      (∀ j, i ≠ j → unresolvedBy j b'.history = unresolvedBy j s.broker.history) →
      Booked ⟨b', s.transports.set i t'⟩ := by
    intro hown hothers j n
    by_cases hij : i = j
    · subst hij
      rw [hown n]
      simp [hself]
    · rw [hothers j hij, h j n]
      simp [List.getElem?_set_ne hij]
  rcases heffect.history htidy with
    ⟨hhistory, hsame⟩ | ⟨n, hhistory, herased, -⟩ | ⟨message, hhistory, -, -, hempty, hfiled⟩
  · refine hsplit (fun k => ?_) fun j _ => by rw [hhistory]
    rw [hhistory, hbefore, hsame]
  · refine hsplit (fun k => ?_) fun j hij => ?_
    · rw [hhistory, unresolvedBy_concat, pendingAfter, if_pos rfl, Finset.mem_erase, hbefore,
        herased]
      split
      · next heq => simp [heq]
      · next hne => simp [hne]
    · rw [hhistory, unresolvedBy_concat, (pendingAfter_of_ne hij _).2]
  · refine hsplit (fun k => ?_) fun j hij => ?_
    · rw [hhistory, unresolvedBy_concat, pendingAfter, if_pos rfl, Finset.mem_insert, hbefore,
        hfiled, getElem?_of_isEmpty hempty]
      simp
    · rw [hhistory, unresolvedBy_concat, (pendingAfter_of_ne hij _).1]

theorem Prompt.site (h : Prompt s.broker.history) (hbooked : Booked s)
    (hlookup : s.transports[i]? = some t) (htidy : t.Tidy)
    (heffect : SiteEffect i a s.broker t b' t') : Prompt b'.history := by
  rcases heffect.history htidy with
    ⟨hhistory, -⟩ | ⟨n, hhistory, -⟩ | ⟨message, hhistory, -, -, hempty, -⟩
  · rw [hhistory]
    exact h
  · rw [hhistory]
    exact h.concat _ fun j topic m heq => absurd heq (by simp)
  · rw [hhistory]
    refine h.concat _ fun j topic m heq => ?_
    obtain rfl : i = j := (Entry.delivered.inj heq).1
    refine Finset.eq_empty_of_forall_notMem fun n hn => ?_
    obtain ⟨u, hu, hsome⟩ := (hbooked i n).mp hn
    obtain rfl := Option.some.inj (hlookup.symm.trans hu)
    rw [getElem?_of_isEmpty hempty] at hsome
    exact absurd hsome (by simp)

/-- A delivery from the topic goes to its subscriber, and nobody else holds anything
of it; any other call leaves the deliveries of the topic alone. -/
theorem HeldLatest.site (h : HeldLatest topic s) (hstanding : Standing s)
    (hinOrder : s.broker.InOrder topic) (hone : AtMostOneSubscriber topic s)
    (hlookup : s.transports[i]? = some t) (heffect : SiteEffect i a s.broker t b' t') :
    HeldLatest topic ⟨b', s.transports.set i t'⟩ := by
  have ht : t ∈ s.transports := List.mem_of_getElem? hlookup
  have htidy := hstanding.tidy t ht
  have hdeliveries : deliveriesFrom topic b'.history = deliveriesFrom topic s.broker.history ∨
      (t.handler = true ∧ t.topic = topic ∧ ∀ message, ¬ t.Holds message) := by
    rcases heffect.history htidy with
      ⟨hhistory, -⟩ | ⟨n, hhistory, -⟩ | ⟨message, hhistory, hhandler, hidle, hempty, -⟩
    · exact .inl (by rw [hhistory])
    · exact .inl (by rw [hhistory, deliveriesFrom_append]; simp [deliveriesFrom])
    · by_cases htopic : t.topic = topic
      · refine .inr ⟨hhandler, htopic, fun m hm => ?_⟩
        rcases hm.busy with hbusy | hbusy
        · rw [hempty] at hbusy
          exact absurd hbusy (by simp)
        · rw [hidle] at hbusy
          exact absurd hbusy (by simp)
      · exact .inl (by rw [hhistory, deliveriesFrom_append]; simp [deliveriesFrom, htopic])
  intro j u hu htopic message hholds
  by_cases hij : i = j
  · subst hij
    obtain rfl := Option.some.inj ((lookup_set_self hlookup t').symm.trans hu)
    obtain ⟨hkept, hheld | ⟨state, rest, hfind, hmessages, rfl⟩⟩ := heffect.holds htidy hholds
    · rcases hdeliveries with hsame | ⟨-, -, hnone⟩
      · exact (h i t hlookup (hkept ▸ htopic) message hheld).of_deliveries hsame
      · exact absurd hheld (hnone message)
    · exact (hinOrder.handedOut hfind hmessages i).2 (hkept ▸ htopic)
  · have hu' : s.transports[j]? = some u := by
      rwa [List.getElem?_set_ne hij] at hu
    rcases hdeliveries with hsame | ⟨hhandler, hti, -⟩
    · exact (h j u hu' htopic message hholds).of_deliveries hsame
    · have hsubscribed := (hstanding.tidy u (List.mem_of_getElem? hu')).subscribed_of_holds hholds
      exact absurd (hone.eq hlookup hu' ⟨htidy.handler hhandler, hti⟩
        ⟨hsubscribed, htopic⟩) hij

end Step

/-- A transport of the longer list was there before, or is the new one. -/
theorem lookup_created {s : System} {i : Nat} {t : InMemoryTransport}
    (h : (s.transports ++ [({} : InMemoryTransport)])[i]? = some t) :
    s.transports[i]? = some t ∨ t = {} := by
  rcases Nat.lt_or_ge i s.transports.length with hlt | hge
  · rw [List.getElem?_append_left hlt] at h
    exact .inl h
  · rw [List.getElem?_append_right hge] at h
    exact .inr (List.mem_singleton.mp (List.mem_of_getElem? h))

theorem Booked.step {s : System} (h : Booked s) (hstanding : Standing s) (a : Action) :
    Booked (s.step a) := by
  have heffect := step_effect s a
  generalize s.step a = s' at heffect ⊢
  cases heffect with
  | nothing hback => exact h
  | created haction =>
      intro i n
      rw [h i n]
      constructor
      · rintro ⟨t, ht, hsome⟩
        obtain ⟨hlt, -⟩ := List.getElem?_eq_some_iff.mp ht
        exact ⟨t, (List.getElem?_append_left hlt).trans ht, hsome⟩
      · rintro ⟨t, ht, hsome⟩
        rcases lookup_created ht with ht | rfl
        · exact ⟨t, ht, hsome⟩
        · exact absurd hsome (by simp)
  | @site i t t' b' haction hlookup hsite =>
      exact h.site hlookup (hstanding.tidy t (List.mem_of_getElem? hlookup)) hsite

theorem Sequenced.step {topic : Topic} {s : System} (h : Sequenced topic s)
    (hone : AtMostOneSubscriber topic s) (a : Action) : Sequenced topic (s.step a) := by
  have hstanding := h.standing.step a
  have hbooked := h.booked.step h.standing a
  have heffect := step_effect s a
  generalize s.step a = s' at hstanding hbooked heffect ⊢
  cases heffect with
  | nothing hback => exact h
  | created haction =>
      -- the new transport holds nothing
      refine ⟨hstanding, h.inOrder, fun i t ht htopic message hholds => ?_, hbooked, h.prompt⟩
      rcases lookup_created ht with ht | rfl
      · exact h.heldLatest i t ht htopic message hholds
      · have hsubscribed := tidy_initial.subscribed_of_holds hholds
        exact absurd hsubscribed (by simp)
  | @site i t t' b' haction hlookup hsite =>
      have htidy := h.standing.tidy t (List.mem_of_getElem? hlookup)
      exact ⟨hstanding, hsite.inOrder htidy (h.heldLatest i t hlookup) h.inOrder,
        h.heldLatest.site h.standing h.inOrder hone hlookup hsite,
        hbooked, h.prompt.site h.booked hlookup htidy hsite⟩

theorem Sequenced.fifo {topic : Topic} {s : System} (h : Sequenced topic s) : Fifo topic s :=
  ⟨h.inOrder.sorted.sublist (List.sublist_append_left _ _),
    fun before after i message heq => h.prompt before after i topic message heq⟩

/-- While a topic has one subscriber at a time its deliveries are in order, whatever
the handlers, the closes, the other senders and the overflow do. -/
theorem always_fifo (topic : Topic) (actions : List Action)
    (h : machine.Always (AtMostOneSubscriber topic) actions) :
    machine.Always (Fifo topic) actions :=
  (Machine.AlwaysFrom.of_always (I := Sequenced topic)
    (fun _ a hone _ hs => hs.step hone a) (sequenced_init topic) h).mono fun _ hs => hs.fifo

/-- One worker's handler crashes; it is closed and replaced by another. -/
def replacedRun : List Action :=
  [.create, .create, .connect 0, .connect 1, .ensureTopic 0 "jobs" {}, .ensureTopicSource 0,
    .subscribe 0 "jobs" true, .send 1 "jobs" [1] { durable := false },
    .send 1 "jobs" [2] { durable := false }, .pump 0,
    .handlerReturns 0 (.threw "crash"), .close 0, .subscribe 1 "jobs" true, .pump 1,
    .handlerReturns 1 (.returned .ack), .pump 1]

theorem always_fifo_replacedRun :
    machine.Always (Fifo "jobs") replacedRun ∧
      (deliveriesFrom "jobs" (machine.run replacedRun).broker.history).map
        (fun m => (m.sequence, m.redelivered)) = [(1, false), (1, true), (2, false)] := by
  exact ⟨always_fifo "jobs" replacedRun (by decide), by decide⟩

end System

end Motus.InMemory
