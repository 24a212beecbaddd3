import Motus.Consumer.Attempts

set_option autoImplicit false

/-!
# No message is tried forever

When only Consumers with an `onMessage` handler subscribe a topic, the flag that a
requeue sets stays with the message until it is taken again, by whichever Consumer.
`Told` says for each copy of the topic where it is and what the log says about it.
-/

namespace Motus.Consumer

open Motus.Foundation Motus.Transport Motus.InMemory InMemoryTransport Broker

/-! ## Where a copy is and what is known of it -/

/-- What has been written down about a delivery whose handler has not left. -/
def begun (topic : Topic) (message : Held) : List Note :=
  match ByteMessage.deserialize message.body with
  | .ok _ => [.called topic message]
  | .error _ => []

/-- What the log says about the copies of a topic agrees with where they are. -/
structure Told (topic : Topic) (log : List Note) (s : System) : Prop where
  counted : System.Counted s
  distinct : System.Distinct topic s
  waiting : ∀ m ∈ s.broker.waitingAt topic, Waited topic m (notesOf topic m.sequence log)
  taken : ∀ (i : Nat) (t : InMemoryTransport) (m : Held), s.transports[i]? = some t →
    t.topic = topic → t.handling = some m → ∃ earlier, Waited topic m earlier ∧
      notesOf topic m.sequence log = earlier ++ begun topic m
  lawful : ∀ number, Lawful topic (notesOf topic number log)
  unnumbered : ∀ number, s.broker.sequence < number → notesOf topic number log = []

/-- The call neither takes a message of the topic nor puts one back. -/
def Quiet (topic : Topic) (s : System) (a : Action) : Prop :=
  ∀ i t, a.transport = some i → s.transports[i]? = some t → t.subscribed = true →
    t.topic = topic → t.putBack a = [] ∧
      ∀ t' m, (s.step a).transports[i]? = some t' → t'.handling = some m → t.handling = some m

section Told

variable {topic : Topic} {log added : List Note} {s : System} {i : Nat} {a : Action} {b' : Broker}
  {t t' : InMemoryTransport}

theorem told_init (topic : Topic) : Told topic [] System.machine.init := by
  refine ⟨System.counted_init, System.distinct_init topic, fun m hm => ?_, fun i t m ht => ?_,
    fun number => ⟨⟨number, [], false, number⟩, [], .inl ⟨rfl, rfl⟩, .inl rfl⟩, fun _ _ => rfl⟩
  · exact absurd hm List.not_mem_nil
  · exact absurd ht (by simp [System.machine])

theorem notesOf_append (number : Nat) (log added : List Note) :
    notesOf topic number (log ++ added) = notesOf topic number log ++ notesOf topic number added :=
  List.filter_append _ _

/-- Notes about another topic tell nothing. -/
theorem Told.elsewhere (h : Told topic log s) (hadded : ∀ number, notesOf topic number added = []) :
    Told topic (log ++ added) s := by
  have hsame : ∀ number, notesOf topic number (log ++ added) = notesOf topic number log := by
    intro number
    rw [notesOf_append, hadded, List.append_nil]
  refine ⟨h.counted, h.distinct, fun m hm => ?_, fun i t m ht htopic hm => ?_, fun number => ?_,
    fun number hn => ?_⟩
  · rw [hsame]
    exact h.waiting m hm
  · rw [hsame]
    exact h.taken i t m ht htopic hm
  · rw [hsame]
    exact h.lawful number
  · rw [hsame]
    exact h.unnumbered number hn

/-- A call on one transport, when the log is known to be right about the copies it
touches. -/
theorem Told.of_site (h : Told topic log s) (touched : Nat → Prop) (added : List Note)
    (hlookup : s.transports[i]? = some t) (hsequence : s.broker.sequence ≤ b'.sequence)
    (hcounted : System.Counted ⟨b', s.transports.set i t'⟩)
    (hdistinct : System.Distinct topic ⟨b', s.transports.set i t'⟩)
    (hadded : ∀ number, ¬ touched number → notesOf topic number added = [])
    (hgiven : ∀ number, touched number → number ≤ s.broker.sequence)
    (hothers : ∀ (j : Nat) (u : InMemoryTransport) (m : Held), j ≠ i → s.transports[j]? = some u →
      u.topic = topic → u.Holds m → ¬ touched m.sequence)
    (hsupplied : ∀ m ∈ b'.waitingAt topic, ¬ touched m.sequence →
      m ∈ s.broker.waitingAt topic ∨ s.broker.sequence < m.sequence ∧ m.redelivered = false)
    (hwaiting : ∀ m ∈ b'.waitingAt topic, touched m.sequence →
      Waited topic m (notesOf topic m.sequence (log ++ added)))
    (htaken : ∀ m, t'.topic = topic → t'.handling = some m → ∃ earlier, Waited topic m earlier ∧
      notesOf topic m.sequence (log ++ added) = earlier ++ begun topic m)
    (hlawful : ∀ number, touched number → Lawful topic (notesOf topic number (log ++ added))) :
    Told topic (log ++ added) ⟨b', s.transports.set i t'⟩ := by
  have hsame : ∀ number, ¬ touched number →
      notesOf topic number (log ++ added) = notesOf topic number log := by
    intro number hn
    rw [notesOf_append, hadded number hn, List.append_nil]
  refine ⟨hcounted, hdistinct, fun m hm => ?_, fun j u m hu htopic hm => ?_, fun number => ?_,
    fun number hn => ?_⟩
  · by_cases htouched : touched m.sequence
    · exact hwaiting m hm htouched
    · rw [hsame _ htouched]
      rcases hsupplied m hm htouched with hbefore | ⟨hlt, hflag⟩
      · exact h.waiting m hbefore
      · exact .inl ⟨hflag, h.unnumbered _ hlt⟩
  · by_cases hji : j = i
    · subst hji
      obtain rfl := Option.some.inj ((System.lookup_set_self hlookup t').symm.trans hu)
      exact htaken m htopic hm
    · have hu' : s.transports[j]? = some u := by
        rwa [List.getElem?_set_ne (Ne.symm hji)] at hu
      rw [hsame _ (hothers j u m hji hu' htopic (.inl hm))]
      exact h.taken j u m hu' htopic hm
  · by_cases htouched : touched number
    · exact hlawful number htouched
    · rw [hsame _ htouched]
      exact h.lawful number
  · have hlt : s.broker.sequence < number := Nat.lt_of_le_of_lt hsequence hn
    rw [hsame _ fun htouched => Nat.not_lt.mpr (hgiven number htouched) hlt]
    exact h.unnumbered number hlt

/-- A transport that is not subscribed does not begin to handle anything. -/
theorem handling_of_unsubscribed (htidy : t.Tidy) (heffect : CallEffect i a s.broker t t')
    (hfree : t.subscribed = false) : t'.handling = none := by
  obtain ⟨-, hnone⟩ := htidy.unsubscribed hfree
  cases hhandling : t'.handling with
  | none => rfl
  | some m =>
      rcases heffect.handling hhandling with hbefore | ⟨-, hhandler⟩
      · rw [hnone] at hbefore
        exact absurd hbefore (by simp)
      · rw [htidy.handler hhandler] at hfree
        exact absurd hfree (by simp)

/-- A call that neither takes nor puts back a message of the topic. -/
theorem Told.quiet (h : Told topic log s) (hquiet : Quiet topic s a) :
    Told topic log (s.step a) := by
  have htidy : ∀ (i : Nat) (t : InMemoryTransport), s.transports[i]? = some t → t.Tidy :=
    fun i t ht => h.counted.standing.tidy t (List.mem_of_getElem? ht)
  have hcounted := h.counted.step a
  have hdistinct := h.distinct.step h.counted (a := a) fun i t tag heq ht htopic hback => by
    cases hfree : t.subscribed with
    | false => exact ((htidy i t ht).unsubscribed hfree).2
    | true => exact absurd (hquiet i t (by rw [heq]; rfl) ht hfree htopic).1 hback
  have hhandles : ∀ i t t' m, a.transport = some i → s.transports[i]? = some t →
      (s.step a).transports[i]? = some t' → t.topic = topic → t'.handling = some m →
      t.handling = some m := by
    intro i t t' m ha ht ht' htopic hm
    cases hfree : t.subscribed with
    | true => exact (hquiet i t ha ht hfree htopic).2 t' m ht' hm
    | false =>
        obtain ⟨u, hu, heffect⟩ := System.step_lookup a ht
        obtain rfl := Option.some.inj (hu.symm.trans ht')
        rw [handling_of_unsubscribed (htidy i t ht) heffect hfree] at hm
        exact absurd hm (by simp)
  have heffect := System.step_effect s a
  generalize s.step a = s' at hcounted hdistinct hhandles heffect ⊢
  cases heffect with
  | nothing hback => exact h
  | created haction =>
      refine ⟨hcounted, hdistinct, h.waiting, fun i t m ht htopic hm => ?_, h.lawful, h.unnumbered⟩
      rcases System.lookup_created ht with ht | rfl
      · exact h.taken i t m ht htopic hm
      · exact absurd hm (by simp)
  | @site i t t' b' haction hlookup hsite =>
      have hflows := hsite.flows (htidy i t hlookup)
      have hsequence : s.broker.sequence ≤ b'.sequence := by
        rcases hflows with ⟨-, hflows⟩ | ⟨message, -, -, hputs⟩
        · exact (hflows topic).sequence
        · rw [hputs.sequence]
      have hsupplied : Supplies s.broker b' topic := by
        rcases hflows with ⟨hback, -⟩ | ⟨message, hback, hholds, hputs⟩
        · exact hsite.supplies hback topic
        · refine .of_subset ?_
          rw [hputs.others topic fun heq => ?_]
          · exact List.Subset.refl _
          · have hsubscribed := (htidy i t hlookup).subscribed_of_holds hholds
            rw [(hquiet i t haction hlookup hsubscribed heq.symm).1] at hback
            exact absurd hback (by simp)
      have hsite' := h.of_site (fun _ => False) [] hlookup hsequence hcounted hdistinct
        (fun _ _ => rfl) (fun _ hn => hn.elim) (fun _ _ _ _ _ _ _ hn => hn)
        (fun m hm _ => hsupplied m hm) (fun _ _ hn => hn.elim) (fun m htopic hm => ?_)
        (fun _ hn => hn.elim)
      · rw [List.append_nil] at hsite'
        exact hsite'
      · have hkept := (hsite.holds (htidy i t hlookup) (.inl hm)).1
        rw [List.append_nil]
        exact h.taken i t m hlookup (hkept ▸ htopic) (hhandles i t t' m haction hlookup
          (System.lookup_set_self hlookup t') (hkept ▸ htopic) hm)

/-- Nothing but `pump` takes a message. -/
theorem Told.returnsNothing (h : Told topic log s)
    (hback : ∀ i t, a.transport = some i → s.transports[i]? = some t → t.subscribed = true →
      t.topic = topic → t.putBack a = [] ∧ a ≠ .pump i) : Told topic log (s.step a) := by
  refine h.quiet fun i t ha ht hsubscribed htopic => ?_
  obtain ⟨hnone, hpump⟩ := hback i t ha ht hsubscribed htopic
  refine ⟨hnone, fun t' m ht' hm => ?_⟩
  obtain ⟨u, hu, heffect⟩ := System.step_lookup a ht
  obtain rfl := Option.some.inj (hu.symm.trans ht')
  rcases heffect.handling hm with hbefore | ⟨heq, -⟩
  · exact hbefore
  · exact absurd heq hpump

/-! ## A delivery and its end -/

theorem notesOf_concluded (number : Nat) (message : Held) (called : Option HandlerEnd)
    (d : Disposition) : notesOf topic number [.concluded topic message called d] =
      if number = message.sequence then [.concluded topic message called d] else [] := by
  by_cases heq : number = message.sequence
  · rw [if_pos heq, heq]
    simp [notesOf, Note.about]
  · rw [if_neg heq]
    simp [notesOf, Note.about, Ne.symm heq]

theorem notesOf_begun (number : Nat) (message : Held) : notesOf topic number (begun topic message) =
    if number = message.sequence then begun topic message else [] := by
  unfold begun
  cases ByteMessage.deserialize message.body with
  | error e => simp [notesOf]
  | ok decoded =>
      by_cases heq : number = message.sequence
      · rw [if_pos heq, heq]
        simp [notesOf, Note.about]
      · rw [if_neg heq]
        simp [notesOf, Note.about, Ne.symm heq]

/-- Notes about another topic. -/
theorem notesOf_of_ne {other : Topic} (hne : other ≠ topic) (number : Nat) (message : Held)
    (called : Option HandlerEnd) (d : Disposition) :
    notesOf topic number (begun other message) = [] ∧
      notesOf topic number [.concluded other message called d] = [] := by
  constructor
  · unfold begun
    cases ByteMessage.deserialize message.body with
    | error e => rfl
    | ok decoded => simp [notesOf, Note.about, hne]
  · simp [notesOf, Note.about, hne]

/-- A delivery that has begun is lawful whatever its body is. -/
theorem lawful_begun {message : Held} {earlier : List Note} (h : Waited topic message earlier) :
    Lawful topic (earlier ++ begun topic message) := by
  refine ⟨message, earlier, h, ?_⟩
  unfold begun
  cases hbody : ByteMessage.deserialize message.body with
  | error e => exact .inl (List.append_nil earlier)
  | ok decoded => exact .inr ⟨_, none, .called hbody, rfl⟩

/-- A subscriber takes the head of the topic. -/
theorem Told.delivered (h : Told topic log s) (hlookup : s.transports[i]? = some t)
    (htopic : t.topic = topic) {state : TopicState} {message : Held} {rest : List Held}
    (hfind : s.broker.find t.topic = some state) (hmessages : state.messages = message :: rest)
    (hstep : s.step (.pump i) = ⟨s.broker.handedOut i t.topic state message rest,
      s.transports.set i (t.taking message)⟩) :
    Told topic (log ++ begun topic message) (s.step (.pump i)) := by
  have hcounted := h.counted.step (.pump i)
  have hdistinct := h.distinct.step h.counted (a := .pump i) fun _ _ _ heq =>
    absurd heq (by simp)
  rw [hstep] at hcounted hdistinct ⊢
  subst htopic
  have hmem : message ∈ s.broker.waitingAt t.topic := by
    rw [waitingAt, hfind, Option.getD_some, hmessages]
    exact List.mem_cons_self
  have hwaited := h.waiting message hmem
  have hnotes : notesOf t.topic message.sequence (log ++ begun t.topic message) =
      notesOf t.topic message.sequence log ++ begun t.topic message := by
    rw [notesOf_append, notesOf_begun, if_pos rfl]
  refine h.of_site (fun number => number = message.sequence) (begun t.topic message) hlookup
    (Nat.le_refl s.broker.sequence) hcounted hdistinct (fun number hn => ?_) (fun number hn => ?_)
    (fun j u m _ hu hut hm heq => ?_) (fun m hm _ => ?_) (fun m hm heq => ?_) (fun m _ hm => ?_)
    fun number hn => ?_
  · rw [notesOf_begun, if_neg hn]
  · rw [hn]
    exact h.counted.waiting t.topic message hmem
  · exact h.distinct.held j u m hu hut hm message hmem heq.symm
  · exact supplies_handedOut s.broker t.topic t.topic hfind hmessages i m hm
  · exact absurd heq (hdistinct.held i (t.taking message) message
      (System.lookup_set_self hlookup _) rfl (.inl rfl) m hm)
  · obtain rfl := Option.some.inj hm
    exact ⟨_, hwaited, hnotes⟩
  · rw [hn, hnotes]
    exact lawful_begun hwaited

/-- The handler has left, or was not called. -/
theorem Told.concluded (h : Told topic log s) (hlookup : s.transports[i]? = some t)
    (htopic : t.topic = topic) (hcallable : t.callable = true) {message : Held}
    (hmessage : t.handling = some message) {d : Disposition} (hd : d ≠ .deferred)
    {called : Option HandlerEnd} (hattempt : Attempt topic message
      (begun topic message ++ [.concluded topic message called d]) (some d)) :
    Told topic (log ++ [.concluded topic message called d])
      (s.step (.handlerReturns i (.returned d))) := by
  have hcounted := h.counted.step (.handlerReturns i (.returned d))
  have hdistinct := h.distinct.step h.counted (a := .handlerReturns i (.returned d))
    fun _ _ _ heq => absurd heq (by simp)
  have hrun := System.call_of_may (endPump (.returned d)) hlookup hcallable
  rw [endPump_run i s.broker t hd hmessage] at hrun
  rw [show s.step (.handlerReturns i (.returned d)) = _ from hrun] at hcounted hdistinct ⊢
  subst htopic
  obtain ⟨earlier, hwaited, hnotes⟩ := h.taken i t message hlookup rfl hmessage
  have hnotes' : notesOf t.topic message.sequence
      (log ++ [.concluded t.topic message called d]) =
        earlier ++ (begun t.topic message ++ [.concluded t.topic message called d]) := by
    rw [notesOf_append, notesOf_concluded, if_pos rfl, hnotes, List.append_assoc]
  have hheld : ∀ m ∈ s.broker.waitingAt t.topic, m.sequence ≠ message.sequence :=
    h.distinct.held i t message hlookup rfl (.inl hmessage)
  have hgiven : message.sequence ≤ s.broker.sequence :=
    h.counted.held t (List.mem_of_getElem? hlookup) message (.inl hmessage)
  -- what waits now: the message itself if it was requeued, and otherwise no message of its number
  have hwaits : s.broker.sequence ≤
      ((s.broker.log (.resolved i message.sequence)).performed t.topic message d).sequence ∧
      ∀ m ∈ ((s.broker.log (.resolved i message.sequence)).performed t.topic message d).waitingAt
        t.topic, d = .requeue ∧ m = { message with redelivered := true } ∨
          m.sequence ≠ message.sequence ∧ (m ∈ s.broker.waitingAt t.topic ∨
            s.broker.sequence < m.sequence ∧ m.redelivered = false) := by
    by_cases hrequeue : d = .requeue
    · subst hrequeue
      have hputs := putsBack_pushFront s.broker (.resolved i message.sequence) t.topic message
      refine ⟨Nat.le_of_eq hputs.sequence.symm, fun m hm => ?_⟩
      rw [hputs.self] at hm
      rcases List.mem_cons.mp hm with rfl | hm
      · exact .inl ⟨rfl, rfl⟩
      · exact .inr ⟨hheld m hm, .inl hm⟩
    · have hflows := flows_performed s.broker (.resolved i message.sequence) t.topic t.topic message
        hrequeue
      refine ⟨hflows.sequence, fun m hm => .inr ⟨hflows.free hgiven hheld m hm, ?_⟩⟩
      exact supplies_performed s.broker _ t.topic t.topic message hrequeue m hm
  refine h.of_site (fun number => number = message.sequence) _ hlookup hwaits.1 hcounted
    hdistinct (fun number hn => ?_) (fun number hn => ?_) (fun j u m hji hu hut hm => ?_)
    (fun m hm hne => ?_) (fun m hm heq => ?_) (fun m _ hm => ?_) fun number hn => ?_
  · rw [notesOf_concluded, if_neg hn]
  · rw [hn]
    exact hgiven
  · exact h.distinct.apart j i u t m message hji hu hlookup hut rfl hm (.inl hmessage)
  · rcases hwaits.2 m hm with ⟨-, rfl⟩ | ⟨-, hbefore⟩
    · exact absurd rfl hne
    · exact hbefore
  · rcases hwaits.2 m hm with ⟨rfl, rfl⟩ | ⟨hne, -⟩
    · -- it was not flagged, so this was the first attempt
      have hfirst := hattempt.of_requeue.1
      rcases hwaited with ⟨-, rfl⟩ | ⟨first, -, rfl, -⟩
      · exact .inr ⟨message, hfirst, rfl, hnotes' ▸ hattempt⟩
      · exact absurd hfirst (by simp)
    · exact absurd heq hne
  · rw [counted_handling] at hm
    exact absurd hm (by simp)
  · rw [hn]
    exact ⟨message, earlier, hwaited, .inr ⟨_, some d, hattempt, hnotes'⟩⟩

end Told

/-! ## A Consumer between two messages -/

/-- Only Consumers with an `onMessage` handler subscribe the topic, and their handlers
return or throw a `std::exception`. -/
def isPlain (topic : Topic) : Work → Bool
  | .call (.subscribe _ t _) => t != topic
  | .construct _ configured => configured == ⟨true, false⟩
  | .handlerEnds _ (.foreign _) => false
  | _ => true

/-- A Consumer with an `onMessage` handler, whose transport holds something only while
that handler runs. -/
structure Rested (c : Consumer) (t : InMemoryTransport) : Prop where
  configured : c.configured = ⟨true, false⟩
  empty : c.phase ≠ .handling → t.outstanding.isEmpty = true

section Rested

variable {topic : Topic} {b b' : Broker} {i : Nat} {a : Work} {c c' : Consumer}
  {t t' : InMemoryTransport} {ending : HandlerEnd} {message : Held}

/-- What the lambda of `start` makes of a message that decodes. -/
theorem concludes_ok (hconfigured : c.configured = ⟨true, false⟩) {decoded : ByteMessage}
    (hbody : ByteMessage.deserialize message.body = .ok decoded)
    (hplain : isPlain topic (.handlerEnds i ending) = true) :
    ∃ d, Concludes c message ending = .ok d ∧ Ends message.redelivered ending d := by
  have hdecode : decode (⟨message.body, message.redelivered, message.sequence⟩ : Delivery).body =
      .ok decoded := decode_eq_ok_iff.mpr hbody
  have hrequeue : inMemoryCapabilities.requeue = true := rfl
  have hdecision := decision_onMessage hrequeue hdecode ending
  rw [← hconfigured] at hdecision
  rw [Concludes, hdecision]
  cases ending with
  | returned d => exact ⟨.ack, rfl, .returned d⟩
  | exception what => exact ⟨.reject, rfl, .failed what⟩
  | foreign what => exact absurd hplain Bool.false_ne_true
  | transientFailure what =>
      cases hredelivered : message.redelivered with
      | false => exact ⟨.requeue, rfl, .retried what rfl⟩
      | true => exact ⟨.reject, rfl, .persisted what rfl⟩

/-- And of one that does not. -/
theorem concludes_error {e : EnvelopeError}
    (hbody : ByteMessage.deserialize message.body = .error e) :
    Concludes c message ending = .ok .reject := by
  have hdecode : decode (⟨message.body, message.redelivered, message.sequence⟩ : Delivery).body =
      .error ⟨.reject, e.what⟩ := by
    rw [decode_eq, hbody]
  exact decision_of_decode_error inMemoryCapabilities hdecode

/-- It always decides, and never to defer. -/
theorem concludes_final (hconfigured : c.configured = ⟨true, false⟩)
    (hplain : isPlain topic (.handlerEnds i ending) = true) (message : Held) :
    ∃ d, Concludes c message ending = .ok d ∧ d ≠ .deferred := by
  cases hbody : ByteMessage.deserialize message.body with
  | error e => exact ⟨.reject, concludes_error hbody, by simp⟩
  | ok decoded =>
      obtain ⟨d, hconcludes, hends⟩ := concludes_ok hconfigured hbody hplain
      refine ⟨d, hconcludes, fun hd => ?_⟩
      rw [hd] at hends
      cases hends

theorem Rested.shift (hshift : Shift b b' i a c t c' t') (htidy : t.Tidy)
    (hheld : ∀ message, t.handling = some message →
      t.outstanding[message.sequence]? = some message)
    (hplain : isPlain topic a = true) (h : Rested c t) : Rested c' t' := by
  have hempty : ∀ {phase : Phase}, c.phase = phase → phase ≠ .handling →
      t.outstanding.isEmpty = true := fun hphase hne => h.empty (hphase ▸ hne)
  cases hshift with
  | quiet hbooks hsteady =>
      refine ⟨hbooks.configured.trans h.configured, fun hphase => ?_⟩
      rw [hsteady.outstanding]
      rcases hbooks.phase with hsame | ⟨hresting, -⟩
      · exact h.empty (hsame ▸ hphase)
      · refine h.empty fun heq => ?_
        rw [heq] at hresting
        exact absurd hresting Bool.false_ne_true
  | pushed handle d => exact ⟨h.configured, h.empty⟩
  | closed haction hphase hidle hgone => exact ⟨h.configured, fun _ => hgone.outstanding⟩
  | subscribed topic' options haction hphase =>
      exact ⟨h.configured, fun _ => hempty hphase (by simp)⟩
  | popped handle d rest haction hphase =>
      exact ⟨h.configured, fun _ => hempty hphase (by simp)⟩
  | settled handle d message hd haction hphase hconnected hmessage =>
      rw [getElem?_of_isEmpty (hempty hphase (by simp))] at hmessage
      exact absurd hmessage (by simp)
  | failed handle d message e hd haction hphase hmessage =>
      rw [getElem?_of_isEmpty (hempty hphase (by simp))] at hmessage
      exact absurd hmessage (by simp)
  | refused handle d e haction hphase =>
      exact ⟨h.configured, fun _ => hempty hphase (by simp)⟩
  | called state message rest => exact ⟨h.configured, fun hnot => absurd rfl hnot⟩
  | escaped message ending what haction hphase hmessage hdecision =>
      subst haction
      obtain ⟨d, hconcludes, -⟩ := concludes_final h.configured hplain message
      rw [hconcludes] at hdecision
      exact absurd hdecision (by simp)
  | deferred message ending haction hphase hmessage hdecision =>
      subst haction
      obtain ⟨d, hconcludes, hd⟩ := concludes_final h.configured hplain message
      rw [hconcludes] at hdecision
      exact absurd (Except.ok.inj hdecision) hd
  | concluded message ending d hd haction hphase hmessage =>
      refine ⟨?_, fun _ => ?_⟩
      · rw [← h.configured]
        cases d <;> rfl
      · rw [counted_outstanding]
        exact htidy.isEmpty_erase (hheld message hmessage)

end Rested

namespace Workers

/-- What holds in every state of a run in which the topic belongs to the Consumers. -/
structure Retrying (topic : Topic) (w : Workers) : Prop where
  staffed : w.Staffed
  told : Told topic w.log w.system
  /-- whoever is subscribed to the topic is a Consumer -/
  owned : ∀ (i : Nat) (t : InMemoryTransport), w.system.transports[i]? = some t →
    t.subscribed = true → t.topic = topic → ∃ c, w.consumers i = some c
  rested : w.Each fun _ => Rested

theorem retrying_init (topic : Topic) : Retrying topic machine.init :=
  ⟨staffed_init, told_init topic, fun _ _ ht => absurd ht (by simp [machine]), each_init⟩

section Step

variable {topic : Topic} {w : Workers} {a : Work}

/-- A Consumer stays. -/
theorem Staffed.consumer_step (h : w.Staffed) (a : Work) {i : Nat} {c : Consumer}
    (hc : w.consumers i = some c) : ∃ c', (w.step a).consumers i = some c' := by
  obtain ⟨t, ht, -⟩ := h.seats i c hc
  obtain ⟨c', t', hc', -⟩ := step_shift hc ht a
  exact ⟨_, hc'⟩

/-- A transport was subscribed to its topic before, or has just been. -/
theorem subscribed_step {s : System} {b : Action} {i : Nat} {t' : InMemoryTransport}
    (ht' : (s.step b).transports[i]? = some t') (hsubscribed : t'.subscribed = true) :
    (∃ t, s.transports[i]? = some t ∧ t.subscribed = true ∧ t.topic = t'.topic) ∨
      b = .subscribe i t'.topic true := by
  rcases System.step_call s b ht' with ⟨-, rfl⟩ | ⟨t, ht, heffect⟩
  · exact absurd hsubscribed (by simp)
  · cases heffect with
    | steady hsteady => exact .inl ⟨t, ht, hsteady.subscribed ▸ hsubscribed, hsteady.topic.symm⟩
    | subscribed topic haction => exact .inr haction
    | left haction hidle hgone =>
        rw [hgone.subscribed] at hsubscribed
        exact absurd hsubscribed Bool.false_ne_true
    | delivered => exact .inl ⟨t, ht, hsubscribed, rfl⟩
    | threw => exact .inl ⟨t, ht, hsubscribed, rfl⟩
    | deferred => exact .inl ⟨t, ht, hsubscribed, rfl⟩
    | handled message d =>
        rw [counted_subscribed] at hsubscribed
        exact .inl ⟨t, ht, hsubscribed, by rw [counted_topic]⟩
    | settled tag message d =>
        rw [counted_subscribed] at hsubscribed
        exact .inl ⟨t, ht, hsubscribed, by rw [counted_topic]⟩

/-- Calls on another transport subscribe nothing. -/
theorem subscribed_runFrom {s : System} {i j : Nat} (hne : j ≠ i) {calls : List Action}
    (hcalls : ∀ b ∈ calls, b.transport = some j) {t' : InMemoryTransport}
    (ht' : (System.machine.runFrom s calls).transports[i]? = some t')
    (hsubscribed : t'.subscribed = true) :
    ∃ t, s.transports[i]? = some t ∧ t.subscribed = true ∧ t.topic = t'.topic := by
  induction calls generalizing s with
  | nil => exact ⟨t', ht', hsubscribed, rfl⟩
  | cons b rest ih =>
      obtain ⟨u, hu, husubscribed, hutopic⟩ :=
        ih (fun b hb => hcalls b (List.mem_cons_of_mem _ hb)) ht'
      rcases subscribed_step hu husubscribed with ⟨t, ht, hsame, htopic⟩ | rfl
      · exact ⟨t, ht, hsame, htopic.trans hutopic⟩
      · exact absurd (Option.some.inj (hcalls _ List.mem_cons_self)) (Ne.symm hne)

/-- Nobody else subscribes the topic. -/
theorem Retrying.owned_step (h : Retrying topic w) (hplain : isPlain topic a = true) {i : Nat}
    {t' : InMemoryTransport} (ht' : (w.step a).system.transports[i]? = some t')
    (hsubscribed : t'.subscribed = true) (htopic : t'.topic = topic) :
    ∃ c, (w.step a).consumers i = some c := by
  have hbefore : (∃ t, w.system.transports[i]? = some t ∧ t.subscribed = true ∧
      t.topic = t'.topic) → ∃ c, (w.step a).consumers i = some c := by
    rintro ⟨t, ht, hsame, hti⟩
    obtain ⟨c, hc⟩ := h.owned i t ht hsame (hti.trans htopic)
    exact h.staffed.consumer_step a hc
  change (w.act a).system.transports[i]? = some t' at ht'
  rcases w.act_writes a with hsame | ⟨j, hj, c, calls, log, hcalls, hwrites⟩ | ⟨b, rfl, hcall⟩
  · rw [hsame] at ht'
    exact hbefore ⟨t', ht', hsubscribed, rfl⟩
  · by_cases hij : i = j
    · subst hij
      refine ⟨w.observe (w.act a) i c, ?_⟩
      have hc : (w.act a).consumers i = some c := by
        rw [hwrites]
        exact Function.update_self _ _ _
      simp only [step, hc, Option.map_some]
    · rw [hwrites] at ht'
      exact hbefore (subscribed_runFrom (Ne.symm hij) hcalls ht' hsubscribed)
  · rw [hcall] at ht'
    rcases subscribed_step ht' hsubscribed with hthere | rfl
    · exact hbefore hthere
    · rw [htopic] at hplain
      exact absurd hplain (by simp [isPlain])

/-- The log is not touched by the observer of returned deliveries. -/
theorem noteReturned_log (w : Workers) (b : Action) : (w.noteReturned b).log = w.log := by
  cases b with
  | close i =>
      simp only [noteReturned, byConsumer]
      split
      · split
        · rfl
        · rfl
      · rfl
  | _ => rfl

/-- Where a Consumer is not in the phase that the work is for, nothing is done. -/
theorem Retrying.told_byConsumer (h : Retrying topic w) {i : Nat}
    {phase : Consumer → InMemoryTransport → Bool} {f : Consumer → InMemoryTransport → Workers}
    (hf : ∀ c t, w.consumers i = some c → w.system.transports[i]? = some t → phase c t = true →
      Told topic (f c t).log (f c t).system) :
    Told topic (w.byConsumer i phase f).log (w.byConsumer i phase f).system := by
  unfold byConsumer
  split
  · next c t hc ht =>
      split
      · next hphase => exact hf c t hc ht hphase
      · exact h.told
  · exact h.told

theorem Retrying.told_call (h : Retrying topic w) (b : Action) :
    Told topic (w.act (.call b)).log (w.act (.call b)).system := by
  simp only [act]
  split
  · next hmay =>
      change Told topic (w.noteReturned b).log (w.system.step b)
      rw [noteReturned_log]
      refine h.told.returnsNothing fun i t hb ht hsubscribed htopic => ?_
      obtain ⟨c, hc⟩ := h.owned i t ht hsubscribed htopic
      have hleaves : c.leaves b = true := by
        rw [← hmay, mayCall, hb, Option.bind_some, hc]
      cases b with
      | close j =>
          have hphase : c.phase = .idle := by simpa [Consumer.leaves] using hleaves
          have hempty := (h.rested.of_lookup hc ht).empty (by rw [hphase]; simp)
          refine ⟨?_, by simp⟩
          simp only [putBack, unresolved_of_isEmpty hempty, ite_self]
      | connect | ensureTopic | ensureTopicSource | send | purgeTopic => exact ⟨rfl, by simp⟩
      | create => exact absurd hb (by simp [Action.transport])
      | _ => exact absurd hleaves Bool.false_ne_true
  · exact h.told

/-- A turn of `pump` takes nothing, or the head of the topic of its transport. -/
theorem Retrying.told_pump (h : Retrying topic w) (i : Nat) :
    Told topic (w.act (.pump i)).log (w.act (.pump i)).system := by
  refine h.told_byConsumer fun c t hc ht hmay => ?_
  simp only [Bool.and_eq_true, beq_iff_eq] at hmay
  obtain ⟨hphase, hidle⟩ := hmay
  have hstep : w.system.step (.pump i) = _ := System.call_of_may pumpTurn ht hidle
  rcases pumpTurn_run i w.system.broker t with
    ⟨hsame, hnot⟩ | ⟨hconnected, hhandler, hempty, state, message, rest, hfind, hmessages, hrun⟩
  · have htold : Told topic w.log (w.system.step (.pump i)) := by
      refine h.told.quiet fun j u hj hu hsubscribed htopic => ?_
      obtain rfl : i = j := Option.some.inj hj
      obtain rfl := Option.some.inj (ht.symm.trans hu)
      refine ⟨rfl, fun t' m ht' hm => ?_⟩
      rw [hstep, hsame] at ht'
      obtain rfl := Option.some.inj ((System.lookup_set_self ht t).symm.trans ht')
      exact hm
    unfold pump
    cases hresult : (pumpTurn ⟨w.system.broker, t, i⟩).1 with
    | error e => exact htold
    | ok turn =>
        cases turn with
        | done result => exact htold
        | slept => exact htold
        | calling delivery => exact absurd hresult (hnot delivery)
  · rw [hrun] at hstep
    have hrunning : (w.system.step (.pump i)).running i = some message := by
      rw [System.running_of_lookup (t := t.taking message)]
      · rfl
      · rw [hstep]
        exact System.lookup_set_self ht _
    have hact : (w.pump i c t).system = w.system.step (.pump i) ∧
        (w.pump i c t).log = w.log ++ begun t.topic message := by
      unfold pump
      rw [hrun]
      dsimp only
      rw [hrunning, begun, decode_eq]
      cases ByteMessage.deserialize message.body with
      | ok decoded => exact ⟨rfl, rfl⟩
      | error e => exact ⟨rfl, (List.append_nil _).symm⟩
    rw [hact.1, hact.2]
    by_cases htopic : t.topic = topic
    · subst htopic
      exact h.told.delivered ht rfl hfind hmessages hstep
    · refine Told.elsewhere (h.told.quiet fun j u hj hu _ hother => ?_) fun number =>
        (notesOf_of_ne htopic number message none .reject).1
      obtain rfl : i = j := Option.some.inj hj
      obtain rfl := Option.some.inj (ht.symm.trans hu)
      exact absurd hother htopic

/-- The handler leaves, and its message is acknowledged, rejected or requeued. -/
theorem Retrying.told_handlerEnds (h : Retrying topic w) {i : Nat} {ending : HandlerEnd}
    (hplain : isPlain topic (.handlerEnds i ending) = true) :
    Told topic (w.act (.handlerEnds i ending)).log (w.act (.handlerEnds i ending)).system := by
  refine h.told_byConsumer fun c t hc ht hmay => ?_
  have hconfigured := (h.rested.of_lookup hc ht).configured
  simp only [Bool.and_eq_true, beq_iff_eq] at hmay
  obtain ⟨hphase, hcallable⟩ := hmay
  cases hmessage : t.handling with
  | none =>
      have hact : w.handlerEnds i ending c t = w := by simp only [handlerEnds, hmessage]
      rw [hact]
      exact h.told
  | some message =>
      obtain ⟨d, hconcludes, hd⟩ := concludes_final hconfigured hplain message
      -- what is written down, and that it ends an attempt
      have hact : ∃ called, (w.handlerEnds i ending c t).system =
          w.system.step (.handlerReturns i (.returned d)) ∧
          (w.handlerEnds i ending c t).log = w.log ++ [.concluded t.topic message called d] ∧
          Attempt t.topic message
            (begun t.topic message ++ [.concluded t.topic message called d]) (some d) := by
        rw [Concludes] at hconcludes
        simp only [handlerEnds, hmessage, hconcludes, decode_eq, begun]
        cases hbody : ByteMessage.deserialize message.body with
        | error e =>
            obtain rfl : Disposition.reject = d :=
              Except.ok.inj ((concludes_error (c := c) hbody).symm.trans hconcludes)
            exact ⟨none, rfl, rfl, .refused hbody⟩
        | ok decoded =>
            obtain ⟨d', hd', hends⟩ := concludes_ok hconfigured hbody hplain
            obtain rfl : d' = d := Except.ok.inj (hd'.symm.trans hconcludes)
            exact ⟨some ending, rfl, rfl, .ended hbody hends⟩
      obtain ⟨called, hsystem, hlog, hattempt⟩ := hact
      rw [hsystem, hlog]
      by_cases htopic : t.topic = topic
      · subst htopic
        exact h.told.concluded ht rfl hcallable hmessage hd hattempt
      · refine Told.elsewhere (h.told.quiet fun j u hj hu _ hother => ?_) fun number =>
          (notesOf_of_ne htopic number message called d).2
        obtain rfl : i = j := Option.some.inj hj
        obtain rfl := Option.some.inj (ht.symm.trans hu)
        exact absurd hother htopic

/-- The declaration and the subscription of `start`. -/
theorem Retrying.told_startSubscribe (h : Retrying topic w) (i : Nat) :
    Told topic (w.act (.startSubscribe i)).log (w.act (.startSubscribe i)).system := by
  refine h.told_byConsumer fun c t hc ht hmay => ?_
  have hdeclared : Told topic w.log (w.system.step (.ensureTopicSource i)) :=
    h.told.returnsNothing fun _ _ _ _ _ _ => ⟨rfl, by simp⟩
  unfold startSubscribe
  dsimp only
  split
  · next topic' _ _ _ =>
      exact hdeclared.returnsNothing (a := .subscribe i topic' true)
        fun _ _ _ _ _ _ => ⟨rfl, by simp⟩
  · exact hdeclared

/-- With nothing outstanding there is nothing that a settlement could put back. -/
theorem Retrying.told_settle (h : Retrying topic w) (i : Nat) :
    Told topic (w.act (.settle i)).log (w.act (.settle i)).system := by
  refine h.told_byConsumer fun c t hc ht hmay => ?_
  unfold settle
  cases hphase : c.phase with
  | settling handle d =>
      have hempty := (h.rested.of_lookup hc ht).empty (by rw [hphase]; simp)
      have hsettled : Told topic w.log (w.system.step (.settle i handle d)) := by
        refine h.told.returnsNothing fun j u hj hu _ _ => ⟨?_, by simp⟩
        obtain rfl : i = j := Option.some.inj hj
        obtain rfl := Option.some.inj (ht.symm.trans hu)
        cases d with
        | requeue => simp only [putBack, getElem?_of_isEmpty hempty, Option.toList_none, ite_self]
        | _ => rfl
      dsimp only
      split
      · exact hsettled
      · exact hsettled
  | _ => exact h.told

theorem Retrying.told_step (h : Retrying topic w) (hplain : isPlain topic a = true) :
    Told topic (w.step a).log (w.step a).system := by
  change Told topic (w.act a).log (w.act a).system
  cases a with
  | call b => exact h.told_call b
  | construct i configured =>
      simp only [act]
      split
      · split
        · exact h.told
        · exact h.told
      · exact h.told
  | attachSettlementQueue i => exact h.told_byConsumer fun _ _ _ _ _ => h.told
  | push i handle d => exact h.told_byConsumer fun _ _ _ _ _ => h.told
  | start i topic' options allowAsymmetric =>
      refine h.told_byConsumer fun c t hc ht hmay => ?_
      have hdeclares : Told topic w.log (w.system.step (.ensureTopic i topic' options)) :=
        h.told.returnsNothing fun _ _ _ _ _ _ => ⟨rfl, by simp⟩
      unfold start
      split
      · exact h.told
      · dsimp only
        split
        · exact hdeclares
        · exact hdeclares
  | startSubscribe i => exact h.told_startSubscribe i
  | poll i => exact h.told_byConsumer fun _ _ _ _ _ => h.told
  | tryPop i =>
      refine h.told_byConsumer fun c t hc ht hmay => ?_
      unfold tryPop
      split
      · exact h.told
      · exact h.told
  | settle i => exact h.told_settle i
  | pump i => exact h.told_pump i
  | sliceOver i => exact h.told_byConsumer fun _ _ _ _ _ => h.told
  | handlerEnds i ending => exact h.told_handlerEnds hplain

theorem Retrying.step (h : Retrying topic w) (hplain : isPlain topic a = true) :
    Retrying topic (w.step a) := by
  refine ⟨h.staffed.step a, h.told_step hplain, fun i t' ht' hsubscribed htopic =>
    h.owned_step hplain ht' hsubscribed htopic, h.rested.step (fun i c t hconstructs => ?_) ?_⟩
  · have haction := hconstructs.action
    subst haction
    exact ⟨eq_of_beq hplain, fun _ => (h.staffed.empty_of_constructs hconstructs).1⟩
  · intro i c t c' t' hc ht hshift hrested
    have hnext := hrested.shift hshift (h.staffed.tidy ht) (h.staffed.seats.of_lookup hc ht).held
      hplain
    exact ⟨hnext.configured, hnext.empty⟩

end Step

/-- In every run in which only Consumers with an `onMessage` handler subscribe the topic,
each of its copies is handed to a handler at most twice, the second time only after a
`TransientFailure` and flagged as redelivered; a body that does not decode is rejected the
first time it is delivered, without any handler; and nothing is requeued twice. -/
theorem handled_atMostTwice (topic : Topic) (actions : List Work)
    (h : ∀ a ∈ actions, isPlain topic a = true) :
    machine.Always (fun w => ∀ number, AtMostTwice topic (notesOf topic number w.log)) actions :=
  (Machine.AlwaysFrom.of_kind (m := machine) (I := Retrying topic)
    (fun _ _ hplain hw => hw.step hplain) (retrying_init topic) h).mono
      fun _ hw number => (hw.told.lawful number).atMostTwice

/-- A worker asks for a retry and is closed; the other one, which is handed the message
next, asks again. -/
def persistingRun : List Work :=
  [.call .create, .call (.connect 0), .construct 0 ⟨true, false⟩, .start 0 "jobs" {} false,
    .startSubscribe 0, .call .create, .call (.connect 1), .construct 1 ⟨true, false⟩,
    .start 1 "jobs" {} false, .startSubscribe 1,
    .call (.send 1 "jobs" (ByteMessage.ascii "motus:1:job") { durable := false }),
    .poll 0, .pump 0, .handlerEnds 0 (.transientFailure "disk full"), .call (.close 0),
    .poll 1, .pump 1, .handlerEnds 1 (.transientFailure "disk full")]

theorem handled_atMostTwice_persistingRun :
    machine.Always (fun w => ∀ number, AtMostTwice "jobs" (notesOf "jobs" number w.log))
        persistingRun ∧
      (callsIn (notesOf "jobs" 1 (machine.run persistingRun).log)).map (·.redelivered) =
        [false, true] := by
  exact ⟨handled_atMostTwice "jobs" persistingRun (by decide), by decide +kernel⟩

end Workers

end Motus.Consumer
