import Motus.Consumer.Deeds
import Motus.Consumer.Settlements
import Motus.InMemory.Acks

set_option autoImplicit false

/-!
# What is acknowledged has been handled

When only Consumers subscribe, a message is acknowledged only after a handler was called
with it: because that call returned and decided so, or because a worker pushed `Ack` for
the delivery.  Whatever else happens to a message, it is not taken for done.
-/

namespace Motus.Consumer

open Motus.Foundation Motus.Transport Motus.InMemory InMemoryTransport Broker

/-- Nobody but a Consumer subscribes a transport. -/
def leavesSubscribing : Work → Bool
  | .call (.subscribe ..) => false
  | _ => true

/-! ## What the log says about a delivery in hand -/

/-- The handler of what the transport holds has been called, or will not be: its body
decodes to nothing, and it is about to be rejected. -/
structure Noted (log : List Note) (t : InMemoryTransport) : Prop where
  handling : ∀ message decoded, t.handling = some message → decode message.body = .ok decoded →
    .called t.topic message ∈ log
  outstanding : ∀ (tag : Nat) message, t.outstanding[tag]? = some message →
    t.handling = some message ∨ .called t.topic message ∈ log

section Noted

variable {log : List Note} {t t' : InMemoryTransport}

theorem noted_of_empty (hempty : t.outstanding.isEmpty = true) (hnone : t.handling = none) :
    Noted log t := by
  refine ⟨fun message decoded hmessage => ?_, fun tag message hmessage => ?_⟩
  · rw [hnone] at hmessage
    exact absurd hmessage (by simp)
  · rw [getElem?_of_isEmpty hempty] at hmessage
    exact absurd hmessage (by simp)

theorem Noted.append (h : Noted log t) (notes : List Note) : Noted (log ++ notes) t :=
  ⟨fun message decoded hmessage hbody =>
      List.mem_append_left _ (h.handling message decoded hmessage hbody),
    fun tag message hmessage =>
      (h.outstanding tag message hmessage).imp_right (List.mem_append_left _)⟩

theorem Noted.of_subset (h : Noted log t) (htopic : t'.topic = t.topic)
    (hhandling : t'.handling = t.handling)
    (houtstanding : ∀ (tag : Nat) message, t'.outstanding[tag]? = some message →
      t.outstanding[tag]? = some message) : Noted log t' := by
  refine ⟨fun message decoded hmessage hbody => ?_, fun tag message hmessage => ?_⟩
  · rw [htopic]
    exact h.handling message decoded (hhandling ▸ hmessage) hbody
  · rw [htopic, hhandling]
    exact h.outstanding tag message (houtstanding tag message hmessage)

/-- A call that neither starts nor ends a handler. -/
theorem Noted.call {i : Nat} {b : Action} {broker : Broker} (h : Noted log t) (htidy : t.Tidy)
    (heffect : CallEffect i b broker t t') (hpump : b ≠ .pump i)
    (hreturns : ∀ outcome, b ≠ .handlerReturns i outcome) : Noted log t' := by
  cases heffect with
  | steady hsteady =>
      exact h.of_subset hsteady.topic hsteady.handling fun tag message hmessage =>
        hsteady.outstanding ▸ hmessage
  | subscribed topic haction hconnected hfree =>
      obtain ⟨hempty, hnone⟩ := htidy.unsubscribed hfree
      exact noted_of_empty hempty hnone
  | left haction hidle hgone =>
      refine noted_of_empty hgone.outstanding (hgone.handling.trans ?_)
      exact Option.isNone_iff_eq_none.mp (Bool.and_eq_true_iff.mp hidle).2
  | delivered haction => exact absurd haction hpump
  | threw what message haction => exact absurd haction (hreturns _)
  | deferred message haction => exact absurd haction (hreturns _)
  | handled message d hd haction => exact absurd haction (hreturns _)
  | settled tag message d =>
      refine h.of_subset (counted_topic _ _ _) (counted_handling _ _ _) fun k m hm => ?_
      rw [counted_outstanding, getElem?_erase] at hm
      split at hm
      · exact absurd hm (by simp)
      · exact hm

/-- The handler leaves what it was called with outstanding. -/
theorem Noted.leaves (h : Noted log t) {message : Held} (hmessage : t.handling = some message)
    {decoded : ByteMessage} (hbody : decode message.body = .ok decoded)
    (htopic : t'.topic = t.topic) (hnone : t'.handling = none)
    (houtstanding : t'.outstanding = t.outstanding) : Noted log t' := by
  refine ⟨fun m _ hm => ?_, fun tag m hm => .inr ?_⟩
  · rw [hnone] at hm
    exact absurd hm (by simp)
  · rw [htopic]
    rcases h.outstanding tag m (houtstanding ▸ hm) with heq | hcalled
    · obtain rfl := Option.some.inj (hmessage.symm.trans heq)
      exact h.handling _ decoded hmessage hbody
    · exact hcalled

/-- The handler leaves; unless its message is resolved, it was called with it. -/
theorem Noted.returns {i : Nat} {outcome : HandlerOutcome} {broker : Broker} (h : Noted log t)
    (htidy : t.Tidy) (heffect : CallEffect i (.handlerReturns i outcome) broker t t')
    {message : Held} (hmessage : t.handling = some message)
    (hbody : (∀ d, outcome = .returned d → d = .deferred) →
      ∃ decoded, decode message.body = .ok decoded) : Noted log t' := by
  have hleaves : (∀ d, outcome = .returned d → d = .deferred) → t'.topic = t.topic →
      t'.handling = none → t'.outstanding = t.outstanding → Noted log t' := by
    intro hunresolved htopic hnone houtstanding
    obtain ⟨decoded, hdecoded⟩ := hbody hunresolved
    exact h.leaves hmessage hdecoded htopic hnone houtstanding
  cases heffect with
  | steady hsteady =>
      exact h.of_subset hsteady.topic hsteady.handling fun tag m hm => hsteady.outstanding ▸ hm
  | subscribed topic haction => exact absurd haction (by simp)
  | left haction => exact absurd haction (by simp)
  | delivered haction => exact absurd haction (by simp)
  | threw what m haction =>
      obtain rfl : outcome = .threw what := by simpa using haction
      exact hleaves (by simp) rfl rfl rfl
  | deferred m haction =>
      obtain rfl : outcome = .returned .deferred := by simpa using haction
      exact hleaves (by simp) rfl rfl rfl
  | handled m d hd haction hcallable hm =>
      have hempty : (t.outstanding.erase m.sequence).isEmpty = true := by
        rcases htidy.handling m hm with hempty | hheld
        · exact isEmpty_erase_of_isEmpty hempty m.sequence
        · exact htidy.isEmpty_erase hheld
      exact noted_of_empty (by rw [counted_outstanding]; exact hempty) (counted_handling _ _ _)
  | settled tag m d hd haction => exact absurd haction (by simp)

/-- A message is taken, and its handler called unless the body decodes to nothing. -/
theorem noted_taking (hempty : t.outstanding.isEmpty = true) (message : Held) :
    Noted (log ++ begun t.topic message) (t.taking message) := by
  refine ⟨fun m decoded hm hbody => ?_, fun tag m hm => .inl ?_⟩
  · obtain rfl := Option.some.inj hm
    have hbegun : begun t.topic message = [.called t.topic message] := by
      rw [begun, decode_eq_ok_iff.mp hbody]
    rw [hbegun]
    exact List.mem_append_right _ (List.mem_singleton_self _)
  · have htaken : (t.outstanding.insertIfNew message.sequence message)[tag]? = some m := hm
    rw [getElem?_insertIfNew_of_isEmpty hempty] at htaken
    split at htaken
    · exact htaken
    · exact absurd htaken (by simp)

end Noted

/-! ## What a decision tells about the handler -/

theorem classifyTransient_ne_ack (what : String) (redelivered : Bool) :
    (classifyTransient what redelivered).disposition ≠ .ack := by
  cases redelivered with
  | false => simp [classifyTransient]
  | true => simp [classifyTransient]

section Concludes

variable {c : Consumer} {message : Held} {ending : HandlerEnd}

/-- A body that decodes to nothing is rejected before any handler. -/
theorem decodes_of_concludes (h : Concludes c message ending ≠ .ok .reject) :
    ∃ decoded, decode message.body = .ok decoded := by
  cases hbody : decode message.body with
  | ok decoded => exact ⟨decoded, rfl⟩
  | error failure => exact absurd (decision_of_decode_error inMemoryCapabilities hbody) h

/-- An acknowledgement is decided by a handler that returned. -/
theorem returned_of_concludes_ack (h : Concludes c message ending = .ok .ack) :
    ∃ d, calledWith message ending = some (.returned d) := by
  obtain ⟨decoded, hbody⟩ := decodes_of_concludes (by rw [h]; simp)
  have hanswer : ∀ result : DispatchResult,
      dispatch message.body (c.configured.handlers ending) message.redelivered message.sequence =
        .ok result → result.disposition = .ack → ∃ d, ending = .returned d := by
    intro result hresult hack
    generalize c.configured = configured at hresult
    obtain ⟨onMessage, onDeferred⟩ := configured
    simp only [dispatch, hbody, Configured.handlers] at hresult
    cases ending with
    | returned d => exact ⟨d, rfl⟩
    | transientFailure what =>
        have hclassified := classifyTransient_ne_ack what message.redelivered
        cases onDeferred <;> cases onMessage <;> obtain rfl := Except.ok.inj hresult
        · exact absurd hack (by simp)
        all_goals exact absurd hack hclassified
    | exception what =>
        cases onDeferred <;> cases onMessage <;> obtain rfl := Except.ok.inj hresult
        all_goals exact absurd hack (by simp)
    | foreign what =>
        cases onDeferred <;> cases onMessage
        · obtain rfl := Except.ok.inj hresult
          exact absurd hack (by simp)
        all_goals exact absurd hresult (by simp)
  unfold Concludes decision at h
  cases hresult : dispatch message.body (c.configured.handlers ending) message.redelivered
      message.sequence with
  | error what =>
      rw [hresult] at h
      exact absurd h (by simp)
  | ok result =>
      rw [hresult] at h
      dsimp only at h
      split at h
      · exact absurd h (by simp)
      · obtain ⟨d, rfl⟩ := hanswer result hresult (Except.ok.inj h)
        exact ⟨d, by rw [calledWith, hbody]⟩

end Concludes

/-! ## What workers pushed -/

section Shift

variable {b b' : Broker} {i : Nat} {a : Work} {c c' : Consumer} {t t' : InMemoryTransport}

/-- Only `push` pushes. -/
theorem Shift.pushed_eq (h : Shift b b' i a c t c' t') : c'.ledger.pushed = c.ledger.pushed ∨
    ∃ push : Push, a = .push i push.handle push.disposition ∧
      c'.ledger.pushed = c.ledger.pushed ++ [push] := by
  cases h with
  | quiet hbooks => exact .inl (by rw [hbooks.ledger])
  | pushed handle d haction => exact .inr ⟨⟨handle, d, t.stats.received⟩, haction, rfl⟩
  | settled handle d message hd =>
      rw [countSettled_eq_count hd]
      have hledger := count_ledger (c := c.handed handle d (.ok ())) d
      have hpushed := congrArg Ledger.pushed hledger
      exact .inl hpushed
  | deferred message ending => exact .inl (congrArg Ledger.pushed (count_ledger _))
  | concluded message ending d => exact .inl (congrArg Ledger.pushed (count_ledger _))
  | _ => exact .inl rfl

/-- What waits to be handed to `settle` waited before, or has just been pushed. -/
theorem Shift.waiting (h : Shift b b' i a c t c' t') {pair : Nat × Disposition}
    (hpair : pair ∈ c'.waiting) : pair ∈ c.waiting ∨ a = .push i pair.1 pair.2 := by
  cases hhands : h.hands with
  | same hwaiting => exact .inl (hwaiting ▸ hpair)
  | pushes push hwaiting hhanded hpushed =>
      rw [hwaiting] at hpair
      rcases List.mem_append.mp hpair with hold | hnew
      · exact .inl hold
      · obtain rfl := List.mem_singleton.mp hnew
        rcases h.pushed_eq with hsame | ⟨push', haction, hpushed'⟩
        · exact absurd (hpushed.symm.trans hsame) (by simp)
        · obtain rfl : push = push' := by simpa using hpushed.symm.trans hpushed'
          exact .inr haction
  | hands handed hphase hhanded hsettlements hafter hpushed =>
      rcases h.hands.waiting_cons with hsame | ⟨other, -, hwaiting⟩
      · exact absurd (hhanded.symm.trans hsame) (by simp)
      · exact .inl (hwaiting ▸ List.mem_cons_of_mem _ hpair)

end Shift

namespace Workers

/-! ## Every transport -/

section Calls

variable {log : List Note} {s : System}

/-- The log is right about what every transport holds. -/
structure AllNoted (log : List Note) (s : System) : Prop where
  standing : System.Standing s
  noted : ∀ (i : Nat) t, s.transports[i]? = some t → Noted log t

theorem AllNoted.append (h : AllNoted log s) (notes : List Note) : AllNoted (log ++ notes) s :=
  ⟨h.standing, fun i t ht => (h.noted i t ht).append notes⟩

theorem AllNoted.tidy (h : AllNoted log s) {i : Nat} {t : InMemoryTransport}
    (ht : s.transports[i]? = some t) : t.Tidy :=
  h.standing.tidy t (List.mem_of_getElem? ht)

/-- What a call leaves, when it is known what it leaves of the transport it is a call on. -/
theorem AllNoted.step (h : AllNoted log s) {b : Action}
    (heffect : ∀ (i : Nat) t t', s.transports[i]? = some t → CallEffect i b s.broker t t' →
      Noted log t') : AllNoted log (s.step b) := by
  refine ⟨h.standing.step b, fun i t' ht' => ?_⟩
  rcases System.step_call s b ht' with ⟨-, rfl⟩ | ⟨t, ht, hcall⟩
  · exact noted_of_empty rfl rfl
  · exact heffect i t t' ht hcall

/-- A call that starts and ends no handler of a subscribed transport. -/
theorem AllNoted.quiet (h : AllNoted log s) {b : Action}
    (hquiet : ∀ (i : Nat) t, s.transports[i]? = some t → t.subscribed = true →
      b ≠ .pump i ∧ ∀ outcome, b ≠ .handlerReturns i outcome) : AllNoted log (s.step b) := by
  refine h.step fun i t t' ht heffect => ?_
  have htidy := h.tidy ht
  cases hfree : t.subscribed with
  | true =>
      obtain ⟨hpump, hreturns⟩ := hquiet i t ht hfree
      exact (h.noted i t ht).call htidy heffect hpump hreturns
  | false =>
      -- it held nothing, and goes on holding nothing
      have hnone := handling_of_unsubscribed htidy heffect hfree
      refine ⟨fun m _ hm => ?_, fun tag m hm => ?_⟩
      · rw [hnone] at hm
        exact absurd hm (by simp)
      · rcases heffect.outstanding hm with hbefore | ⟨-, hhandling, -⟩
        · rw [getElem?_of_isEmpty (htidy.unsubscribed hfree).1] at hbefore
          exact absurd hbefore (by simp)
        · rw [hnone] at hhandling
          exact absurd hhandling (by simp)

theorem AllNoted.declared {calls : List Action} (h : AllNoted log s)
    (hcalls : ∀ b ∈ calls, declares b = true) :
    AllNoted log (System.machine.runFrom s calls) := by
  induction calls generalizing s with
  | nil => exact h
  | cons b rest ih =>
      refine ih (h.quiet fun i t _ _ => ?_) fun b hb => hcalls b (List.mem_cons_of_mem _ hb)
      have hb := hcalls b List.mem_cons_self
      constructor
      · rintro rfl
        exact absurd hb Bool.false_ne_true
      · rintro outcome rfl
        exact absurd hb Bool.false_ne_true

end Calls

/-- A declaration acknowledges nothing. -/
theorem acks_declared {s : System} {calls : List Action}
    (hcalls : ∀ b ∈ calls, declares b = true) :
    (System.machine.runFrom s calls).broker.acks = s.broker.acks := by
  induction calls generalizing s with
  | nil => rfl
  | cons b rest ih =>
      refine (ih fun b hb => hcalls b (List.mem_cons_of_mem _ hb)).trans ?_
      have hb := hcalls b List.mem_cons_self
      rcases s.step_acks b with hsame | ⟨m, ⟨i, t, -, ⟨rfl, -⟩ | ⟨tag, rfl, -⟩⟩, -⟩
      · exact hsame
      · exact absurd hb Bool.false_ne_true
      · exact absurd hb Bool.false_ne_true

/-! ## Runs -/

/-- A handler was called with the message that its transport was handed; it returned and
decided to acknowledge, or a worker pushed `Ack` for the delivery. -/
def Answered (works : List Work) (w : Workers) (message : Held) : Prop :=
  ∃ i topic, .delivered i topic message ∈ w.system.broker.history ∧
    .called topic message ∈ w.log ∧
    ((∃ d, .concluded topic message (some (.returned d)) .ack ∈ w.log) ∨
      .push i message.sequence .ack ∈ works)

theorem Answered.mono {works works' : List Work} {w w' : Workers} {message : Held}
    (h : Answered works w message) (hworks : works ⊆ works')
    (hhistory : w.system.broker.history ⊆ w'.system.broker.history) (hlog : w.log ⊆ w'.log) :
    Answered works' w' message := by
  obtain ⟨i, topic, hdelivered, hcalled, hanswer⟩ := h
  refine ⟨i, topic, hhistory hdelivered, hlog hcalled, ?_⟩
  rcases hanswer with ⟨d, hconcluded⟩ | hpushed
  · exact .inl ⟨d, hlog hconcluded⟩
  · exact .inr (hworks hpushed)

/-- What holds in every state of a run in which only Consumers subscribe. -/
structure Acknowledging (works : List Work) (w : Workers) : Prop where
  staffed : w.Staffed
  handedOut : System.HandedOut w.system
  /-- whoever is subscribed is a Consumer -/
  owned : ∀ (i : Nat) (t : InMemoryTransport), w.system.transports[i]? = some t →
    t.subscribed = true → ∃ c, w.consumers i = some c
  noted : AllNoted w.log w.system
  pushed : ∀ i c, w.consumers i = some c → ∀ pair ∈ c.waiting, .push i pair.1 pair.2 ∈ works
  answered : ∀ message ∈ w.system.broker.acks, Answered works w message

theorem acknowledging_init : Acknowledging [] machine.init := by
  refine ⟨staffed_init, System.handedOut_init, fun i t ht => ?_,
    ⟨System.standing_init, fun i t ht => ?_⟩, fun i c hc => ?_, fun message hm => ?_⟩
  · exact absurd ht (by simp [machine])
  · exact absurd ht (by simp [machine])
  · exact absurd hc (by simp [machine])
  · exact absurd hm List.not_mem_nil

section Step

variable {works : List Work} {w : Workers} {a : Work} (h : Acknowledging works w)
include h

/-- A transport that is subscribed is called by its Consumer alone. -/
theorem Acknowledging.call_quiet {b : Action} (hmay : w.mayCall b = true) (i : Nat)
    (t : InMemoryTransport) (ht : w.system.transports[i]? = some t) (hsubscribed : t.subscribed = true) :
    b ≠ .pump i ∧ (∀ outcome, b ≠ .handlerReturns i outcome) ∧ ∀ tag d, b ≠ .settle i tag d := by
  obtain ⟨c, hc⟩ := h.owned i t ht hsubscribed
  have hleaves : b.transport = some i → c.leaves b = true := by
    intro htransport
    rw [← hmay, mayCall, htransport, Option.bind_some, hc]
  refine ⟨?_, ?_, ?_⟩
  · rintro rfl
    exact absurd (hleaves rfl) Bool.false_ne_true
  · rintro outcome rfl
    exact absurd (hleaves rfl) Bool.false_ne_true
  · rintro tag d rfl
    exact absurd (hleaves rfl) Bool.false_ne_true

theorem Acknowledging.owned_step (hguard : leavesSubscribing a = true) {i : Nat}
    {t' : InMemoryTransport} (ht' : (w.step a).system.transports[i]? = some t')
    (hsubscribed : t'.subscribed = true) : ∃ c, (w.step a).consumers i = some c := by
  have hbefore : (∃ t, w.system.transports[i]? = some t ∧ t.subscribed = true ∧
      t.topic = t'.topic) → ∃ c, (w.step a).consumers i = some c := by
    rintro ⟨t, ht, hsame, -⟩
    obtain ⟨c, hc⟩ := h.owned i t ht hsame
    exact h.staffed.consumer_step a hc
  obtain ⟨calls, notes, hdeed, hsystem, -⟩ := w.step_deed a
  rw [hsystem] at ht'
  have hown : ∀ {j : Nat} {c : Consumer}, w.consumers j = some c →
      (∀ b ∈ calls, b.transport = some j) → ∃ c, (w.step a).consumers i = some c := by
    intro j c hc hcalls
    by_cases hij : i = j
    · subst hij
      exact h.staffed.consumer_step a hc
    · exact hbefore (subscribed_runFrom (Ne.symm hij) hcalls ht' hsubscribed)
  cases hdeed with
  | apart => exact hbefore ⟨t', ht', hsubscribed, rfl⟩
  | @outside b hmay =>
      rcases subscribed_step ht' hsubscribed with hthere | rfl
      · exact hbefore hthere
      · exact absurd hguard Bool.false_ne_true
  | declared hc hcalls => exact hown hc fun b hb => (hcalls b hb).2
  | settled hc => exact hown hc (by simp [Action.transport])
  | delivered hc => exact hown hc (by simp [Action.transport])
  | escaped hc => exact hown hc (by simp [Action.transport])
  | concluded hc => exact hown hc (by simp [Action.transport])

theorem Acknowledging.noted_step (a : Work) : AllNoted (w.step a).log (w.step a).system := by
  obtain ⟨calls, notes, hdeed, hsystem, hlog⟩ := w.step_deed a
  rw [hsystem, hlog]
  -- the handler of transport `i` has left
  have hreturns : ∀ (i : Nat) (t : InMemoryTransport) (message : Held) (outcome : HandlerOutcome),
      w.system.transports[i]? = some t → t.handling = some message →
      ((∀ d, outcome = .returned d → d = .deferred) →
        ∃ decoded, decode message.body = .ok decoded) →
      AllNoted w.log (w.system.step (.handlerReturns i outcome)) := by
    intro i t message outcome ht hmessage hbody
    refine h.noted.step fun j u u' hu heffect => ?_
    by_cases hij : i = j
    · subst hij
      obtain rfl := Option.some.inj (ht.symm.trans hu)
      exact (h.noted.noted i t ht).returns (h.noted.tidy ht) heffect hmessage hbody
    · exact (h.noted.noted j u hu).call (h.noted.tidy hu) heffect (by simp)
        fun outcome' heq => hij (Action.handlerReturns.inj heq).1
  cases hdeed with
  | apart => exact h.noted.append []
  | @outside b hmay =>
      refine AllNoted.append (h.noted.quiet fun i t ht hsubscribed => ?_) []
      obtain ⟨hpump, hreturns, -⟩ := h.call_quiet hmay i t ht hsubscribed
      exact ⟨hpump, hreturns⟩
  | declared hc hcalls => exact (h.noted.declared fun b hb => (hcalls b hb).1).append []
  | @settled i c t handle d hc ht hphase =>
      exact AllNoted.append (h.noted.quiet (b := .settle i handle d) fun _ _ _ _ => by simp) []
  | @delivered i c t state message rest hc ht hempty hfind hmessages hstep =>
      refine ⟨h.noted.standing.step (.pump i), fun j u hu => ?_⟩
      change (w.system.step (.pump i)).transports[j]? = some u at hu
      rw [hstep] at hu
      by_cases hij : i = j
      · subst hij
        obtain rfl := Option.some.inj ((System.lookup_set_self ht _).symm.trans hu)
        exact noted_taking hempty message
      · rw [List.getElem?_set_ne hij] at hu
        exact (h.noted.noted j u hu).append _
  | @escaped i ending c t message what hc ht hmessage hconcludes =>
      refine AllNoted.append (hreturns i t message _ ht hmessage fun _ => ?_) []
      exact decodes_of_concludes (by rw [hconcludes]; simp)
  | @concluded i ending c t message d hc ht hcallable hmessage hconcludes =>
      refine AllNoted.append (hreturns i t message _ ht hmessage fun hdeferred => ?_) _
      exact decodes_of_concludes (by rw [hconcludes, hdeferred d rfl]; simp)

theorem Acknowledging.pushed_step (a : Work) : ∀ i c, (w.step a).consumers i = some c →
    ∀ pair ∈ c.waiting, .push i pair.1 pair.2 ∈ works ++ [a] := by
  intro i c hc pair hpair
  rcases step_consumer hc with ⟨old, hold⟩ | ⟨t, hconstructs⟩
  · obtain ⟨t, ht, -⟩ := h.staffed.seats i old hold
    obtain ⟨c', t', hc', -, hshift⟩ := step_shift hold ht a
    obtain rfl := Option.some.inj (hc.symm.trans hc')
    rcases hshift.waiting hpair with hwaiting | rfl
    · exact List.mem_append_left _ (h.pushed i old hold pair hwaiting)
    · exact List.mem_append_right _ (List.mem_singleton_self _)
  · rw [hconstructs.fresh] at hpair
    exact absurd hpair List.not_mem_nil

/-- What a piece of work acknowledges was answered. -/
theorem Acknowledging.answered_step (a : Work) :
    ∀ message ∈ (w.step a).system.broker.acks, Answered (works ++ [a]) (w.step a) message := by
  obtain ⟨hstanding, hhistory⟩ := system_step
    (P := fun s => System.Standing s ∧ w.system.broker.history ⊆ s.broker.history)
    (fun s b hs => ⟨hs.1.step b, List.Subset.trans hs.2 (hs.1.history_step b)⟩) a
    ⟨h.staffed.standing, List.Subset.refl _⟩
  obtain ⟨calls, notes, hdeed, hsystem, hlog⟩ := w.step_deed a
  have hgrows : w.log ⊆ (w.step a).log := by
    rw [hlog]
    exact List.subset_append_left _ _
  have hold : ∀ message ∈ w.system.broker.acks, Answered (works ++ [a]) (w.step a) message :=
    fun message hm => (h.answered message hm).mono (List.subset_append_left _ _) hhistory hgrows
  -- a single call acknowledges what was answered before, or one message that now is
  have hone : ∀ b, calls = [b] → (∀ message, w.system.Acknowledges b message →
      Answered (works ++ [a]) (w.step a) message) →
      ∀ message ∈ (w.step a).system.broker.acks, Answered (works ++ [a]) (w.step a) message := by
    rintro b rfl hnew message hm
    rw [hsystem] at hm
    rcases w.system.step_acks b with hsame | ⟨m, hack, hmore⟩
    · exact hold message (hsame ▸ hm)
    · change message ∈ (w.system.step b).broker.acks at hm
      rw [hmore] at hm
      rcases List.mem_append.mp hm with hm | hm
      · exact hold message hm
      · rw [List.mem_singleton.mp hm]
        exact hnew m hack
  cases hdeed with
  | apart =>
      rw [hsystem]
      exact hold
  | @outside b hmay =>
      refine hone b rfl ?_
      rintro message ⟨i, t, ht, ⟨rfl, hmessage⟩ | ⟨tag, rfl, hmessage⟩⟩
      · have hsubscribed := (h.noted.tidy ht).subscribed_of_holds (.inl hmessage)
        exact absurd rfl ((h.call_quiet hmay i t ht hsubscribed).2.1 _)
      · have hsubscribed := (h.noted.tidy ht).subscribed_of_holds (.inr ⟨tag, hmessage⟩)
        exact absurd rfl ((h.call_quiet hmay i t ht hsubscribed).2.2 _ _)
  | declared hc hcalls =>
      rw [hsystem, acks_declared fun b hb => (hcalls b hb).1]
      exact hold
  | @settled i c t handle d hc ht hphase =>
      refine hone _ rfl ?_
      rintro message ⟨j, u, hu, ⟨heq, -⟩ | ⟨tag, heq, hmessage⟩⟩
      · exact absurd heq (by simp)
      · obtain ⟨rfl, rfl, rfl⟩ := Action.settle.inj heq
        obtain rfl := Option.some.inj (ht.symm.trans hu)
        have hnumber := ((h.noted.tidy ht).sole handle message hmessage).2
        have hpushed := h.pushed i c hc (handle, .ack) (by
          rw [waiting, inFlight, hphase]
          exact List.mem_append_left _ (List.mem_singleton_self _))
        refine ⟨i, t.topic, hhistory (h.handedOut i t message ht (.inr ⟨handle, hmessage⟩)),
          hgrows ?_, .inr ?_⟩
        · rcases (h.noted.noted i t ht).outstanding handle message hmessage with hhandling | hcalled
          · -- no handler runs while a settlement is carried out
            rw [(h.staffed.seats.of_lookup hc ht).resting (by rw [hphase]; simp)] at hhandling
            exact absurd hhandling (by simp)
          · exact hcalled
        · rw [hnumber]
          exact List.mem_append_left _ hpushed
  | delivered =>
      refine hone _ rfl ?_
      rintro message ⟨j, u, hu, ⟨heq, -⟩ | ⟨tag, heq, -⟩⟩
      · exact absurd heq (by simp)
      · exact absurd heq (by simp)
  | escaped =>
      refine hone _ rfl ?_
      rintro message ⟨j, u, hu, ⟨heq, -⟩ | ⟨tag, heq, -⟩⟩
      · exact absurd heq (by simp)
      · exact absurd heq (by simp)
  | @concluded i ending c t message d hc ht hcallable hmessage hconcludes =>
      refine hone _ rfl ?_
      rintro m ⟨j, u, hu, ⟨heq, hm⟩ | ⟨tag, heq, -⟩⟩
      · obtain ⟨rfl, hreturned⟩ := Action.handlerReturns.inj heq
        obtain rfl := HandlerOutcome.returned.inj hreturned
        obtain rfl := Option.some.inj (ht.symm.trans hu)
        obtain rfl := Option.some.inj (hmessage.symm.trans hm)
        obtain ⟨decoded, hbody⟩ := decodes_of_concludes (by rw [hconcludes]; simp)
        obtain ⟨d, hcalled⟩ := returned_of_concludes_ack hconcludes
        refine ⟨i, t.topic, hhistory (h.handedOut i t message ht (.inl hmessage)),
          hgrows ((h.noted.noted i t ht).handling message decoded hmessage hbody), .inl ⟨d, ?_⟩⟩
        rw [hlog, hcalled]
        exact List.mem_append_right _ (List.mem_singleton_self _)
      · exact absurd heq (by simp)

theorem Acknowledging.step (hguard : leavesSubscribing a = true) :
    Acknowledging (works ++ [a]) (w.step a) where
  staffed := h.staffed.step a
  handedOut := (system_step (P := fun s => System.Standing s ∧ System.HandedOut s)
    (fun _ b hs => ⟨hs.1.step b, hs.2.step hs.1 b⟩) a ⟨h.staffed.standing, h.handedOut⟩).2
  owned := fun _ _ ht' hsubscribed => h.owned_step hguard ht' hsubscribed
  noted := h.noted_step a
  pushed := h.pushed_step a
  answered := h.answered_step a

end Step

/-- Two workers on one topic: a handler that returns, one that defers and is settled by
another thread, and one whose message is sent back for another attempt. -/
def sharedRun : List Work :=
  [.call .create, .call (.connect 0), .construct 0 ⟨true, false⟩, .start 0 "jobs" {} false,
    .startSubscribe 0, .call .create, .call (.connect 1), .construct 1 ⟨false, true⟩,
    .attachSettlementQueue 1, .start 1 "jobs" {} false, .startSubscribe 1,
    .call (.send 1 "jobs" (ByteMessage.ascii "motus:1:a") { durable := false }),
    .call (.send 1 "jobs" (ByteMessage.ascii "motus:1:b") { durable := false }),
    .poll 0, .pump 0, .poll 1, .tryPop 1, .pump 1, .handlerEnds 0 (.transientFailure "busy"),
    .handlerEnds 1 (.returned .deferred), .poll 0, .pump 0, .handlerEnds 0 (.returned .ack),
    .push 1 2 .ack, .poll 1, .tryPop 1, .settle 1]

end Workers

end Motus.Consumer
