import Motus.InMemory.Accounting

set_option autoImplicit false

/-!
# No message is lost or duplicated

Over all runs of any number of transports: a copy that a topic has stored waits in
one topic, or is held by one transport, or has left for a reason that accounts for
it.

Only transports that still exist hold anything.  What a destroyed one might have kept
counts nowhere, so that a destructor that did not give its deliveries back would lose them.
-/

namespace Motus.InMemory

open Motus.Foundation Motus.Transport

namespace System

open InMemoryTransport

/-- What a transport holds: what it has taken and not resolved, as long as it exists. -/
def held (t : InMemoryTransport) : Multiset Held := if t.destroyed then 0 else t.unresolved

/-- Everything that some transport holds. -/
def outstanding (s : System) : Multiset Held := (s.transports.map held).sum

/-- Every copy stored in a topic is in exactly one place. -/
structure Conserved (s : System) : Prop where
  one_place : ∀ m ∈ s.broker.stores,
    (s.broker.waiting.map (·.copy)).count m.copy + (s.outstanding.map (·.copy)).count m.copy +
      (s.broker.closures.map (·.1.copy)).count m.copy = 1
  /-- what left for good was acknowledged, purged, rejected by or evicted from a topic
  that does not dead-letter, or refused by a forensic destination that was full -/
  accounted : ∀ m ∈ s.broker.stores, ∀ closure ∈ s.broker.closures,
    closure.1.copy = m.copy → s.broker.Final closure.2
  distinct : ((s.broker.waiting + s.outstanding).map (·.sequence)).Nodup
  /-- whoever holds a copy, or closed it, has the body it was published with -/
  body_eq : ∀ m ∈ s.broker.offers, ∀ m',
    (m' ∈ s.broker.waiting ∨ m' ∈ s.outstanding ∨ m' ∈ s.broker.closures.map Prod.fst) →
      m'.copy = m.copy → m'.body = m.body

/-- Topics are declared before they are sent to, and a handler does not settle
through the transport that is calling it. -/
def disciplined (s : System) : Action → Bool
  | .send i topic _ options => (s.transports[i]?).all fun t =>
      !t.publishes options || (s.broker.find topic).isSome
  | .settle i _ _ => (s.transports[i]?).all fun t => t.handling.isNone
  | _ => true

/-- A transport that was destroyed has given back what it held. -/
def Emptied (s : System) : Prop :=
  ∀ t ∈ s.transports, t.destroyed = true → t.unresolved = []

/-- The delivery whose handler is running is unresolved. -/
def Attended (s : System) : Prop :=
  ∀ t ∈ s.transports, ∀ message, t.handling = some message →
    t.outstanding[message.sequence]? = some message

end System

open InMemoryTransport

/-! ## One call -/

section Site

variable {i : Nat} {a : Action} {b b' : Broker} {t t' : InMemoryTransport}

theorem unresolved_congr (h : t'.outstanding = t.outstanding) : t'.unresolved = t.unresolved := by
  rw [unresolved, h, unresolved]

theorem SiteEffect.attended (heffect : SiteEffect i a b t b' t')
    (h : ∀ message, t.handling = some message → t.outstanding[message.sequence]? = some message)
    (hsettle : ∀ tag d, a = .settle i tag d → t.handling = none) :
    ∀ message, t'.handling = some message → t'.outstanding[message.sequence]? = some message := by
  have hsame : t'.outstanding = t.outstanding → (t'.handling = t.handling ∨ t'.handling = none) →
      ∀ message, t'.handling = some message →
        t'.outstanding[message.sequence]? = some message := by
    rintro houtstanding (hhandling | hhandling) message hmessage
    · rw [houtstanding]
      exact h message (hhandling ▸ hmessage)
    · rw [hhandling] at hmessage
      exact absurd hmessage (by simp)
  cases heffect with
  | quiet hkept houtstanding hhandling => exact hsame houtstanding hhandling
  | declaredForensic topic options hkept hdeclaring houtstanding hhandling =>
      exact hsame houtstanding (.inl hhandling)
  | declared topic options hdeclaring hkept houtstanding hhandling =>
      exact hsame houtstanding (.inl hhandling)
  | published topic payload options haction hpublishes hkept houtstanding hhandling =>
      exact hsame houtstanding (.inl hhandling)
  | subscribed topic hfree => exact h
  | purged topic => exact h
  | delivered state message rest hhandler hempty hidle hfind hmessages hkept houtstanding
      hhandling =>
      intro m hm
      obtain rfl := Option.some.inj (hhandling.symm.trans hm)
      rw [houtstanding, ← Std.TreeMap.mem_toList_iff_getElem?_eq_some,
        toList_insertIfNew_of_isEmpty hempty]
      exact List.mem_singleton_self _
  | handled message d hd hmessage hkept houtstanding hhandling =>
      intro m hm
      rw [hhandling] at hm
      exact absurd hm (by simp)
  | settled tag message d haction hd hmessage hkept houtstanding hhandling =>
      intro m hm
      rw [hhandling, hsettle tag d haction] at hm
      exact absurd hm (by simp)
  | left hidle houtstanding hhandling =>
      intro m hm
      rw [hhandling] at hm
      exact absurd hm (by simp)

/-- A call that destroys its transport leaves it with nothing. -/
theorem SiteEffect.emptied (heffect : SiteEffect i a b t b' t') (hlive : t.destroyed = false)
    (hgone : t'.destroyed = true) : t'.unresolved = [] := by
  have hsame : t'.destroyed = t.destroyed → t'.unresolved = [] := fun h =>
    absurd (hlive.symm.trans (h.symm.trans hgone)) Bool.false_ne_true
  cases heffect with
  | quiet hkept => exact hsame hkept.destroyed
  | declaredForensic topic options hkept => exact hsame hkept.destroyed
  | declared topic options hdeclaring hkept => exact hsame hkept.destroyed
  | published topic payload options haction hpublishes hkept => exact hsame hkept.destroyed
  | subscribed topic hfree => exact hsame rfl
  | purged topic => exact hsame rfl
  | delivered state message rest hhandler hempty hidle hfind hmessages hkept =>
      exact hsame hkept.destroyed
  | handled message d hd hmessage hkept => exact hsame hkept.destroyed
  | settled tag message d haction hd hmessage hkept => exact hsame hkept.destroyed
  | left hidle houtstanding => exact unresolved_of_isEmpty houtstanding

/-- A call moves copies between the broker and what the transport holds; the other
transports hold `others` throughout. -/
theorem SiteEffect.accounted {others : Multiset Held} (heffect : SiteEffect i a b t b' t')
    (htidy : Tidy t) (hanchored : t.busy → (b.find t.topic).isSome = true)
    (hprov : Broker.Provisioned b)
    (hattended : ∀ message, t.handling = some message →
      t.outstanding[message.sequence]? = some message)
    (hsend : ∀ topic payload options, a = .send i topic payload options →
      t.publishes options = true → (b.find topic).isSome = true)
    (h : b.Accounted (t.unresolved + others)) : b'.Accounted (t'.unresolved + others) := by
  -- what the transport holds when a disposition is carried out on its only delivery
  have hperformed : ∀ (n tag : Nat) (message : Held) (d : Disposition), d ≠ .deferred →
      t.outstanding[tag]? = some message → t'.outstanding = t.outstanding.erase tag →
      ((b.log (.resolved i n)).performed t.topic message d).Accounted (t'.unresolved + others) := by
    intro n tag message d hd hmessage houtstanding
    have hempty : t'.unresolved = [] :=
      unresolved_of_isEmpty (by rw [houtstanding]; exact htidy.isEmpty_erase hmessage)
    rw [htidy.unresolved_of_getElem? hmessage, Multiset.coe_singleton,
      Multiset.singleton_add] at h
    rw [hempty, Multiset.coe_nil, zero_add]
    have hlog : Broker.SameTopics b (b.log (.resolved i n)) := .of_find fun _ => rfl
    exact (h.log_resolved i n).performed (hprov.of_sameTopics hlog)
      (hlog.extends.isSome (hanchored (.inl (isEmpty_of_getElem? hmessage)))) hd
  cases heffect with
  | quiet hkept houtstanding hhandling => rwa [unresolved_congr houtstanding]
  | declaredForensic topic options hkept hdeclaring houtstanding hhandling =>
      rw [unresolved_congr houtstanding]
      exact h.ensureTopic _ _
  | declared topic options hdeclaring hkept houtstanding hhandling =>
      rw [unresolved_congr houtstanding]
      exact h.ensureTopic topic options
  | published topic payload options haction hpublishes hkept houtstanding hhandling =>
      rw [unresolved_congr houtstanding]
      exact h.publish hprov (hsend topic payload options haction hpublishes) payload options.route
  | subscribed topic hfree => exact h
  | purged topic => exact h.purge topic
  | delivered state message rest hhandler hempty hidle hfind hmessages hkept houtstanding
      hhandling =>
      have htaken : t'.unresolved = [message] := by
        rw [unresolved, houtstanding, toList_insertIfNew_of_isEmpty hempty]
        rfl
      rw [unresolved_of_isEmpty hempty, Multiset.coe_nil, zero_add] at h
      rw [htaken, Multiset.coe_singleton, Multiset.singleton_add]
      exact (h.pop hfind hmessages).log_delivered i t.topic message
  | handled message d hd hmessage hkept houtstanding hhandling =>
      exact hperformed _ _ message d hd (hattended message hmessage) houtstanding
  | settled tag message d haction hd hmessage hkept houtstanding hhandling =>
      exact hperformed tag tag message d hd hmessage houtstanding
  | left hidle houtstanding hhandling =>
      rw [unresolved_of_isEmpty houtstanding, Multiset.coe_nil, zero_add]
      rcases htidy.unresolved_cases with hempty | ⟨message, hmessage⟩
      · rw [unresolved_of_isEmpty hempty, Multiset.coe_nil, zero_add] at h
        rw [unresolved_of_isEmpty hempty]
        exact h
      · obtain ⟨state, hfind⟩ :=
          Option.isSome_iff_exists.mp (hanchored (.inl (isEmpty_of_getElem? hmessage)))
        rw [htidy.unresolved_of_getElem? hmessage, Multiset.coe_singleton,
          Multiset.singleton_add] at h
        rw [htidy.unresolved_of_getElem? hmessage]
        exact (h.pushFront hfind).log_resolved i message.sequence

end Site

/-! ## Runs -/

namespace System

/-- Where everything has been given back, the destroyed transports may be counted in. -/
theorem Emptied.outstanding_eq {s : System} (h : Emptied s) :
    s.outstanding = (s.transports.map fun t => (t.unresolved : Multiset Held)).sum := by
  unfold outstanding
  congr 1
  refine List.map_congr_left fun t ht => ?_
  unfold held
  split
  · next hgone =>
      rw [h t ht hgone]
      rfl
  · rfl

/-- No call is made on a destroyed transport. -/
theorem step_of_destroyed {s : System} {a : Action} {i : Nat} {t : InMemoryTransport}
    (haction : a.transport = some i) (hlookup : s.transports[i]? = some t)
    (hgone : t.destroyed = true) : s.step a = s := by
  have hcall : ∀ {α : Type} (may : InMemoryTransport → Bool) (x : Method α), may t = false →
      s.call i may x = s := by
    intro α may x hmay
    simp only [call, hlookup, hmay]
    rfl
  have hcallable : t.callable = false := by simp [callable, hgone]
  have hidle : t.idle = false := by simp [idle, hcallable]
  have hdeclaring : (fun t : InMemoryTransport => !t.destroyed) t = false := by simp [hgone]
  cases a with
  | create => exact absurd haction (by simp [Action.transport])
  | ensureTopicSource j =>
      obtain rfl : j = i := Option.some.inj haction
      exact hcall _ _ hdeclaring
  | close j =>
      obtain rfl : j = i := Option.some.inj haction
      exact hcall _ _ hidle
  | destroy j =>
      obtain rfl : j = i := Option.some.inj haction
      exact hcall _ _ hidle
  | pump j =>
      obtain rfl : j = i := Option.some.inj haction
      exact hcall _ _ hidle
  | _ =>
      obtain rfl := Option.some.inj haction
      exact hcall _ _ hcallable

theorem Emptied.step {s : System} (h : Emptied s) (a : Action) : Emptied (s.step a) := by
  have heffect := step_effect s a
  have hgone := fun i t => step_of_destroyed (s := s) (a := a) (i := i) (t := t)
  generalize s.step a = s' at heffect hgone ⊢
  cases heffect with
  | nothing hback => exact h
  | created haction =>
      intro t ht hdestroyed
      rcases List.mem_append.mp ht with ht | ht
      · exact h t ht hdestroyed
      · rw [List.mem_singleton.mp ht] at hdestroyed
        exact absurd hdestroyed Bool.false_ne_true
  | @site i t t' b' haction hlookup hsite =>
      intro u hu hdestroyed
      cases halready : t.destroyed with
      | true =>
          -- the call was not made, so this is a transport from before it
          rw [congrArg System.transports (hgone i t haction hlookup halready)] at hu
          exact h u hu hdestroyed
      | false =>
          rcases List.mem_or_eq_of_mem_set hu with hu | rfl
          · exact h u hu hdestroyed
          · exact hsite.emptied halready hdestroyed

/-- What every disciplined run keeps. -/
structure Orderly (s : System) : Prop where
  standing : Standing s
  ready : DeclarationsReady s
  provisioned : s.broker.Provisioned
  attended : Attended s
  emptied : Emptied s
  accounted : s.broker.Accounted s.outstanding

theorem orderly_init : Orderly machine.init := by
  refine ⟨standing_init, declarationsReady_init, ?_, ?_, ?_, ?_⟩
  · intro t options hoptions
    exact absurd hoptions (by simp [machine, Broker.optionsOf, Broker.find])
  · intro t ht
    exact absurd ht (by simp [machine])
  · intro t ht
    exact absurd ht (by simp [machine])
  · refine ⟨?_, by simp [machine, Broker.stores], by simp [machine, Broker.closures]⟩
    exact Custody.sound_empty

/-- A disciplined send that publishes names a topic that exists. -/
theorem disciplined_send {s : System} {i : Nat} {t : InMemoryTransport} {topic : Topic}
    {payload : Bytes} {options : SendOptions}
    (h : s.disciplined (.send i topic payload options) = true)
    (hlookup : s.transports[i]? = some t) (hpublishes : t.publishes options = true) :
    (s.broker.find topic).isSome = true := by
  simpa [disciplined, hlookup, hpublishes] using h

theorem disciplined_settle {s : System} {i tag : Nat} {t : InMemoryTransport} {d : Disposition}
    (h : s.disciplined (.settle i tag d) = true) (hlookup : s.transports[i]? = some t) :
    t.handling = none := by
  simpa [disciplined, hlookup] using h

theorem sendsDeclared_of_disciplined {s : System} {a : Action} (h : s.disciplined a = true) :
    SendsDeclared s a := by
  cases a with
  | send i topic payload options =>
      exact fun t hlookup hpublishes => .inl (disciplined_send h hlookup hpublishes)
  | _ => trivial

theorem Orderly.step {s : System} (h : Orderly s) {a : Action} (hguard : s.disciplined a = true) :
    Orderly (s.step a) := by
  refine ⟨h.standing.step a, h.ready.step h.standing a,
    h.standing.provisioned_step h.ready h.provisioned (sendsDeclared_of_disciplined hguard), ?_,
    h.emptied.step a, ?_⟩
  · have heffect := step_effect s a
    generalize s.step a = s' at heffect ⊢
    cases heffect with
    | nothing hback => exact h.attended
    | created haction =>
        intro t ht message hmessage
        rcases List.mem_append.mp ht with ht | ht
        · exact h.attended t ht message hmessage
        · rw [List.mem_singleton.mp ht] at hmessage
          exact absurd hmessage (by simp)
    | @site i t t' b' haction hlookup hsite =>
        intro u hu
        rcases List.mem_or_eq_of_mem_set hu with hu | rfl
        · exact h.attended u hu
        · refine hsite.attended (h.attended t (List.mem_of_getElem? hlookup)) ?_
          rintro tag d rfl
          exact disciplined_settle hguard hlookup
  · have heffect := step_effect s a
    have hemptied := h.emptied.step a
    generalize s.step a = s' at heffect hemptied ⊢
    cases heffect with
    | nothing hback => exact h.accounted
    | created haction =>
        have hsame : outstanding { s with transports := s.transports ++ [{}] } = s.outstanding := by
          simp [outstanding, held, unresolved_of_isEmpty]
        rw [hsame]
        exact h.accounted
    | @site i t t' b' haction hlookup hsite =>
        have ht : t ∈ s.transports := List.mem_of_getElem? hlookup
        have hbefore := sum_map_eq_of_getElem?
          (fun t : InMemoryTransport => (t.unresolved : Multiset Held)) hlookup
        have hafter := sum_map_set
          (fun t : InMemoryTransport => (t.unresolved : Multiset Held)) hlookup t'
        have haccounted := h.accounted
        rw [h.emptied.outstanding_eq, hbefore] at haccounted
        rw [hemptied.outstanding_eq, hafter]
        refine hsite.accounted (h.standing.tidy t ht) (h.standing.anchored t ht) h.provisioned
          (h.attended t ht) ?_ haccounted
        rintro topic payload options rfl
        exact disciplined_send hguard hlookup

/-- What the books of an orderly system say. -/
theorem Orderly.conserved {s : System} (h : Orderly s) : Conserved s := by
  have hsound := h.accounted.sound
  refine ⟨fun m hm => ?_, fun m hm closure hclosure hcopy => ?_, ?_, ?_⟩
  · have hissued : m.copy ∈ (s.broker.custody s.outstanding).issued.map Prod.fst := by
      simp only [Broker.custody, Multiset.map_coe, List.map_map, Multiset.mem_coe]
      exact h.accounted.stored m hm
    have hcount := hsound.count_eq_one hissued
    simp only [Broker.custody, Multiset.map_map, Multiset.map_coe, List.map_map,
      Multiset.coe_count] at hcount
    exact hcount
  · rcases h.accounted.lawful closure hclosure with hfinal | hnot
    · exact hfinal
    · refine absurd (List.mem_map.mpr ⟨m, hm, ?_⟩) hnot
      exact hcopy.symm
  · have htickets := hsound.tickets_nodup
    simp only [Broker.custody, ← Multiset.map_add, Multiset.map_map] at htickets
    exact htickets
  · intro m hm m' hm' hcopy
    have hissued : (m.copy, m.body) ∈ (s.broker.custody s.outstanding).issued :=
      List.mem_map.mpr ⟨m, hm, rfl⟩
    have hheld : (m.copy, m'.body) ∈ (s.broker.custody s.outstanding).issued := by
      rw [hsound.balanced, ← hcopy, Multiset.mem_add, Multiset.mem_add]
      rcases hm' with hm' | hm' | hm'
      · refine .inl (.inl (Multiset.mem_map.mpr ⟨m'.ticketed, ?_, rfl⟩))
        exact Multiset.mem_map_of_mem _ hm'
      · refine .inl (.inr (Multiset.mem_map.mpr ⟨m'.ticketed, ?_, rfl⟩))
        exact Multiset.mem_map_of_mem _ hm'
      · obtain ⟨closure, hclosure, rfl⟩ := List.mem_map.mp hm'
        exact .inr (List.mem_map.mpr ⟨closure, hclosure, rfl⟩)
    exact hsound.payload_eq hissued hheld

/-- In every state of every run in which topics are declared before they are sent to
and handlers do not call back, no stored copy is lost or duplicated. -/
theorem always_conserved (actions : List Action)
    (h : machine.Guarded (fun s a => s.disciplined a = true) actions) :
    machine.Always Conserved actions :=
  (Machine.AlwaysFrom.of_guarded (fun _ _ hs hguard => hs.step hguard) orderly_init h).mono
    fun _ hs => hs.conserved

/-- Two workers on a topic that retains one message: an eviction, a deferral settled
with `Reject`, a handler that throws, and a worker that is closed. -/
def crossingRun : List Action :=
  [.create, .create, .connect 0, .connect 1, .ensureTopic 0 "jobs" { maxLength := 1 },
    .ensureTopicSource 0, .subscribe 0 "jobs" true, .subscribe 1 "jobs" true,
    .send 0 "jobs" [1] { durable := false }, .pump 0, .send 0 "jobs" [2] { durable := false },
    .handlerReturns 0 (.returned .deferred), .send 1 "jobs" [3] { durable := false }, .pump 1,
    .handlerReturns 1 (.threw "crash"), .settle 0 1 .reject, .close 1]

theorem always_conserved_crossingRun : machine.Always Conserved crossingRun :=
  always_conserved crossingRun (by decide)

end System

end Motus.InMemory
