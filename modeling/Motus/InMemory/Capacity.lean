import Motus.InMemory.Standing

set_option autoImplicit false

/-!
# Bounded topics

`enqueueLocked` applies `maxLength`, and it is on the way of every publish and of
every dead-lettered message.  `requeue` is not on that way: what a transport puts
back goes to the head of its topic whether there is room or not.

Over a call, topics within their limits stay within them exactly if what the call puts
back fits, and over a run exactly if this is so of every call.
-/

namespace Motus.InMemory

open Motus.Foundation Motus.Transport

namespace TopicState

/-- No more messages wait than the topic was declared to retain. -/
def WithinLimit (state : TopicState) : Prop :=
  0 < state.options.maxLength → state.messages.length ≤ state.options.maxLength

end TopicState

namespace Broker

/-- Every bounded topic is within its limit. -/
def WithinLimits (b : Broker) : Prop := ∀ t state, b.find t = some state → state.WithinLimit

/-- Publishing and dead-lettering keep to the limits. -/
theorem WithinLimits.of_evolves {lo : Nat} {b b' : Broker} (h : WithinLimits b)
    (hevolves : Evolves lo b b') : WithinLimits b' := by
  intro t state' hfind' hpos
  cases hfind : b.find t with
  | none =>
      rw [hevolves.absent t hfind] at hfind'
      exact absurd hfind' (by simp)
  | some state =>
      obtain ⟨state'', hfind'', hadvance⟩ := hevolves.present t state hfind
      obtain rfl := Option.some.inj (hfind''.symm.trans hfind')
      rw [hadvance.options] at hpos ⊢
      have hbefore := h t state hfind hpos
      have hafter := hadvance.bounded hpos
      omega

/-- Only one topic changes, and it is within its limit afterwards. -/
theorem WithinLimits.of_write {b : Broker} (h : WithinLimits b) {topic : Topic}
    {state : TopicState} (hstate : state.WithinLimit) : WithinLimits (b.write topic state) := by
  intro t after hfind
  by_cases heq : topic = t
  · subst heq
    rw [find_write_self] at hfind
    rw [← Option.some.inj hfind]
    exact hstate
  · rw [find_write_of_ne _ heq] at hfind
    exact h t after hfind

theorem WithinLimits.of_find {b b' : Broker} (h : WithinLimits b)
    (hfind : ∀ t, b'.find t = b.find t) : WithinLimits b' :=
  fun t state ht => h t state ((hfind t).symm.trans ht)

theorem withinLimit_empty (options : TopicOptions) (binding : String) :
    TopicState.WithinLimit { messages := [], options := options, binding := binding } :=
  fun _ => Nat.zero_le _

theorem WithinLimits.ensureTopic {b : Broker} (h : WithinLimits b) (topic : Topic)
    (options : TopicOptions) : WithinLimits (ensureTopic topic options b).2 := by
  obtain ⟨groups, ⟨hsame, -⟩ | ⟨-, hnew⟩⟩ := ensureTopic_apply topic options b
  · rw [hsame]
    exact h.of_find fun _ => rfl
  · rw [hnew]
    exact WithinLimits.of_write (h.of_find fun _ => rfl) (withinLimit_empty options _)

theorem WithinLimits.publish {b : Broker} (h : WithinLimits b) (topic : Topic) (body : Bytes)
    (route : String) : WithinLimits (publish topic body route b).2 := by
  have hopened : WithinLimits (b.opened topic) := by
    intro t state hfind
    rw [find_opened] at hfind
    split at hfind
    · cases horigin : b.find topic with
      | none =>
          rw [horigin, Option.getD_none] at hfind
          rw [← Option.some.inj hfind]
          exact withinLimit_empty {} ""
      | some origin =>
          rw [horigin, Option.getD_some] at hfind
          rw [← Option.some.inj hfind]
          exact h topic origin horigin
    · exact h t state hfind
  exact hopened.of_evolves (publish_evolves topic body route b)

theorem WithinLimits.purge {b : Broker} (h : WithinLimits b) (topic : Topic) :
    WithinLimits (purge topic b).2 := by
  simp only [Broker.purge, Exec.get_bind]
  cases b.find topic with
  | none => exact h
  | some state => exact (h.of_write (withinLimit_empty state.options state.binding)).of_find fun _ => rfl

theorem WithinLimits.deadLetter {b : Broker} (h : WithinLimits b) (topic : Topic)
    (message : Held) : WithinLimits (deadLetter topic message b).2 :=
  h.of_evolves (deadLetterVia_evolves (enqueueLocked_evolves _) topic message b).1

/-- Messages that come back stand before those that wait, in their own order. -/
theorem find_putBackAll {b : Broker} {topic : Topic} {state : TopicState}
    (hfind : b.find topic = some state) (i : Nat) (messages : List Held) :
    (b.putBackAll i topic messages).find topic = some { state with
        messages := messages.map ({ · with redelivered := true }) ++ state.messages } ∧
      ∀ t, topic ≠ t → (b.putBackAll i topic messages).find t = b.find t := by
  induction messages with
  | nil => exact ⟨hfind, fun _ _ => rfl⟩
  | cons message rest ih =>
      obtain ⟨hself, hother⟩ := ih
      have hback : b.putBackAll i topic (message :: rest) =
          (b.putBackAll i topic rest).putBackOne i topic message := rfl
      rw [hback, putBackOne]
      refine ⟨?_, fun t ht => ?_⟩
      · rw [find_log, find_pushFront, if_pos rfl, hself]
        rfl
      · rw [find_log, find_pushFront, if_neg ht, hother t ht]

end Broker

namespace System

/-- What an action puts back fits into the topic it goes to. -/
def ReturnsFit (s : System) (a : Action) : Prop :=
  ∀ i t state, a.transport = some i → s.transports[i]? = some t → t.putBack a ≠ [] →
    s.broker.find t.topic = some state → state.options.maxLength = 0 ∨
      state.messages.length + (t.putBack a).length ≤ state.options.maxLength

/-- The effect of putting messages back at the head of a topic. -/
theorem withinLimits_putBack_iff {b b' : Broker} (h : b.WithinLimits) (topic : Topic)
    {state : TopicState} (back : List Held)
    (hself : ∃ messages, b'.find topic = some { state with messages := messages } ∧
      messages.length = state.messages.length + back.length)
    (hother : ∀ t, topic ≠ t → b'.find t = b.find t) :
    b'.WithinLimits ↔ state.options.maxLength = 0 ∨
      state.messages.length + back.length ≤ state.options.maxLength := by
  obtain ⟨messages, hself, hlength⟩ := hself
  rw [← hlength]
  constructor
  · intro hafter
    have hlimit := hafter topic _ hself
    by_cases hpos : 0 < state.options.maxLength
    · exact .inr (hlimit hpos)
    · exact .inl (by omega)
  · intro hfits t after ht
    by_cases heq : topic = t
    · subst heq
      rw [hself] at ht
      rw [← Option.some.inj ht]
      intro hpos
      rcases hfits with hzero | hfits
      · exact absurd hzero hpos.ne'
      · exact hfits
    · rw [hother t heq] at ht
      exact h t after ht

section Returns

variable {s : System} {a : Action} {i : Nat} {t : InMemoryTransport}
  (haction : a.transport = some i) (hlookup : s.transports[i]? = some t)
include haction hlookup

theorem returnsFit_of_putBack_nil (hback : t.putBack a = []) : ReturnsFit s a := by
  intro j u state hj hu hne _
  obtain rfl := Option.some.inj (haction.symm.trans hj)
  obtain rfl := Option.some.inj (hlookup.symm.trans hu)
  exact absurd hback hne

theorem returnsFit_iff {state : TopicState} (hfind : s.broker.find t.topic = some state)
    (hback : t.putBack a ≠ []) : ReturnsFit s a ↔ state.options.maxLength = 0 ∨
      state.messages.length + (t.putBack a).length ≤ state.options.maxLength := by
  constructor
  · intro h
    exact h i t state haction hlookup hback hfind
  · intro h j u state' hj hu _ hfind'
    obtain rfl := Option.some.inj (haction.symm.trans hj)
    obtain rfl := Option.some.inj (hlookup.symm.trans hu)
    obtain rfl := Option.some.inj (hfind.symm.trans hfind')
    exact h

/-- Carrying out a disposition on a message of the transport. -/
theorem withinLimits_performed_iff (h : s.broker.WithinLimits)
    (htopic : (s.broker.find t.topic).isSome = true) (entry : Entry) (message : Held)
    (d : Disposition) (hback : t.putBack a = if d = .requeue then [message] else []) :
    ((s.broker.log entry).performed t.topic message d).WithinLimits ↔ ReturnsFit s a := by
  have hlog : (s.broker.log entry).WithinLimits := h.of_find fun _ => rfl
  cases d with
  | requeue =>
      obtain ⟨state, hfind⟩ := Option.isSome_iff_exists.mp htopic
      rw [if_pos rfl] at hback
      rw [returnsFit_iff haction hlookup hfind (by simp [hback]), hback]
      refine withinLimits_putBack_iff h t.topic [message]
        ⟨{ message with redelivered := true } :: state.messages, ?_, by simp⟩ fun u hu => ?_
      · rw [Broker.performed, Broker.find_pushFront, if_pos rfl, Broker.find_log, hfind]
        rfl
      · rw [Broker.performed, Broker.find_pushFront, if_neg hu, Broker.find_log]
  | ack => exact iff_of_true (hlog.of_find fun _ => rfl) (returnsFit_of_putBack_nil haction hlookup hback)
  | reject =>
      exact iff_of_true (hlog.deadLetter t.topic message)
        (returnsFit_of_putBack_nil haction hlookup hback)
  | deferred => exact iff_of_true hlog (returnsFit_of_putBack_nil haction hlookup hback)

end Returns

/-- A step keeps the limits exactly when what it puts back fits. -/
theorem step_withinLimits_iff {s : System} (hstanding : Standing s) (h : s.broker.WithinLimits)
    (a : Action) : (s.step a).broker.WithinLimits ↔ ReturnsFit s a := by
  have heffect := step_effect s a
  generalize s.step a = s' at heffect ⊢
  cases heffect with
  | nothing hback =>
      exact iff_of_true h fun i t state haction hlookup hne _ =>
        absurd (hback i t haction hlookup) hne
  | created haction =>
      refine iff_of_true h fun i t state hi => ?_
      rw [haction] at hi
      exact absurd hi (by simp [Action.transport])
  | @site i t t' b' haction hlookup hsite =>
      have ht : t ∈ s.transports := List.mem_of_getElem? hlookup
      have hkeeps : ∀ c : Broker, c.WithinLimits → t.putBack a = [] →
          (c.WithinLimits ↔ ReturnsFit s a) :=
        fun c hc hback => iff_of_true hc (returnsFit_of_putBack_nil haction hlookup hback)
      cases hsite with
      | quiet _ _ _ hback => exact hkeeps _ h hback
      | declaredForensic topic options _ _ _ _ hback => exact hkeeps _ (h.ensureTopic _ _) hback
      | declared topic options _ _ _ _ hback => exact hkeeps _ (h.ensureTopic topic options) hback
      | published topic payload options hsend =>
          exact hkeeps _ (h.publish topic payload options.route) (by rw [hsend]; rfl)
      | subscribed topic _ hback => exact hkeeps _ h hback
      | purged topic hback => exact hkeeps _ (h.purge topic) hback
      | delivered state message rest _ _ _ hfind hmessages _ _ _ hback =>
          refine hkeeps _ ((h.of_write fun hpos => ?_).of_find fun _ => rfl) hback
          have hbefore := h t.topic state hfind hpos
          rw [hmessages, List.length_cons] at hbefore
          exact Nat.le_of_succ_le hbefore
      | handled message d _ hmessage _ _ _ hback =>
          have hbusy : t.busy := .inr (by rw [hmessage, Option.isSome_some])
          exact withinLimits_performed_iff haction hlookup h (hstanding.anchored t ht hbusy)
            _ message d hback
      | settled tag message d _ _ hmessage _ _ _ hback =>
          have hbusy : t.busy := .inl (InMemoryTransport.isEmpty_of_getElem? hmessage)
          exact withinLimits_performed_iff haction hlookup h (hstanding.anchored t ht hbusy)
            _ message d hback
      | left _ _ _ _ _ _ hback =>
          cases hempty : t.outstanding.isEmpty with
          | true =>
              rw [unresolved_of_isEmpty hempty] at hback ⊢
              exact hkeeps _ h hback
          | false =>
              obtain ⟨state, hfind⟩ :=
                Option.isSome_iff_exists.mp (hstanding.anchored t ht (.inl hempty))
              have hne : t.unresolved ≠ [] := by
                intro hnil
                rw [InMemoryTransport.unresolved, List.map_eq_nil_iff, ← List.isEmpty_iff,
                  Std.TreeMap.isEmpty_toList, hempty] at hnil
                exact absurd hnil (by simp)
              obtain ⟨hself, hother⟩ := Broker.find_putBackAll hfind i t.unresolved
              rw [returnsFit_iff haction hlookup hfind (by rw [hback]; exact hne), hback]
              exact withinLimits_putBack_iff h t.topic t.unresolved
                ⟨_, hself, by rw [List.length_append, List.length_map]; omega⟩ hother

/-- The runs that keep every bounded topic within its limit throughout are exactly
those in which whatever a handler, `settle` or a leaving transport puts back fits. -/
theorem withinLimits_iff_returnsFit (actions : List Action) :
    machine.Always (fun s => s.broker.WithinLimits) actions ↔
      machine.Guarded ReturnsFit actions := by
  refine Machine.alwaysFrom_iff_guardedFrom (J := Standing) (fun s a h => h.step a)
    (fun s a h hlimits => (step_withinLimits_iff h hlimits a).mpr)
    (fun s a h hlimits => (step_withinLimits_iff h hlimits a).mp) actions standing_init ?_
  intro t state hfind
  exact absurd hfind (by simp [machine, Broker.find])

/-- A bounded topic is refilled while its only message is out, and the message is
then put back. -/
def refilledRun : List Action :=
  [.create, .connect 0, .ensureTopic 0 "jobs" { maxLength := 1, deadLetter := false },
    .ensureTopicSource 0, .send 0 "jobs" [1] { durable := false }, .subscribe 0 "jobs" true,
    .pump 0, .send 0 "jobs" [2] { durable := false }, .handlerReturns 0 (.returned .requeue)]

/-- Two messages then wait in a topic that retains one. -/
theorem refilledRun_exceeds :
    ¬ machine.Always (fun s => s.broker.WithinLimits) refilledRun ∧
      ((machine.run refilledRun).broker.find "jobs").map
        (fun state => (state.options.maxLength, state.messages.map (·.body))) =
          some (1, [[1], [2]]) := by
  have hfinal : ((machine.run refilledRun).broker.find "jobs").map
      (fun state => (state.options.maxLength, state.messages.length)) = some (1, 2) := by decide
  refine ⟨fun h => ?_, by decide⟩
  obtain ⟨state, hfind, hstate⟩ := Option.map_eq_some_iff.mp hfinal
  obtain ⟨hmax, hlength⟩ := Prod.mk.inj hstate
  have hlimit := h.last "jobs" state hfind
  rw [TopicState.WithinLimit, hmax, hlength] at hlimit
  exact absurd (hlimit Nat.one_pos) (by decide)

end System

end Motus.InMemory
