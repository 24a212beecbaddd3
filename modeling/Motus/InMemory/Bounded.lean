import Motus.InMemory.Forensic
import Motus.InMemory.Undeclared

set_option autoImplicit false

/-!
# What a bounded topic keeps

A topic in no group that is only sent to holds the first or the last bodies it was
sent, by its overflow policy, and answers each send by the number of sends before it.

`kept` is the closed form, for any sequence of bodies and each of the three policies.  A
step offers one body more, a run any number of them, and other calls may come between as
long as they leave the topic as it is.
-/

namespace Motus.InMemory

open Motus.Foundation Motus.Transport Broker InMemoryTransport

namespace TopicState

/-- What is kept of the bodies sent to a topic with these options. -/
def kept (options : TopicOptions) (bodies : List Bytes) : List Bytes :=
  if options.maxLength = 0 then bodies
  else if options.overflow = .dropHead then bodies.rtake options.maxLength
  else bodies.take options.maxLength

/-- Whether such a topic keeps one body more after so many. -/
def acceptsAfter (options : TopicOptions) (n : Nat) : Bool :=
  decide (options.maxLength = 0 ∨ options.overflow = .dropHead ∨ n < options.maxLength)

/-- The queue holds what is kept of these bodies. -/
structure Keeps (options : TopicOptions) (bodies : List Bytes) (state : TopicState) : Prop where
  stored : state.options = options
  messages : state.messages.map (·.body) = kept options bodies

variable {options : TopicOptions} {bodies : List Bytes} {state : TopicState}

/-- A topic is full once it was sent as many bodies as it may hold. -/
theorem Keeps.full_eq (h : Keeps options bodies state) :
    state.full = decide (0 < options.maxLength ∧ options.maxLength ≤ bodies.length) := by
  have hlength := congrArg List.length h.messages
  rw [List.length_map] at hlength
  rw [full, h.stored, hlength, ← Bool.decide_and, decide_eq_decide, kept]
  refine and_congr_right fun hpos => ?_
  rw [if_neg hpos.ne']
  split
  · rw [List.rtake, List.length_drop]
    omega
  · rw [List.length_take]
    omega

theorem Keeps.accepts_eq (h : Keeps options bodies state) :
    state.accepts = acceptsAfter options bodies.length := by
  rw [accepts, h.full_eq, h.stored, acceptsAfter, ← decide_not, ← Bool.decide_or, decide_eq_decide]
  by_cases hdrop : options.overflow = .dropHead
  · simp [hdrop]
  · simp only [hdrop, or_false, false_or]
    omega

/-- Dropping the oldest of the last `n` elements to append one. -/
theorem tail_rtake_append {α : Type} {l : List α} {n : Nat} (hpos : 0 < n) (hle : n ≤ l.length)
    (x : α) : (l.rtake n).tail ++ [x] = (l ++ [x]).rtake n := by
  obtain ⟨n, rfl⟩ : ∃ k, n = k + 1 := ⟨n - 1, by omega⟩
  rw [List.rtake_concat_succ, List.rtake, List.rtake, List.tail_drop]
  congr 3
  omega

/-- The step: one body more is offered. -/
theorem Keeps.offeredTo (h : Keeps options bodies state) (message : Held) :
    Keeps options (bodies ++ [message.body]) (state.offeredTo message) := by
  refine ⟨by rw [options_offeredTo, h.stored], ?_⟩
  have hmessages := h.messages
  unfold TopicState.offeredTo kept at *
  cases hfull : state.full with
  | false =>
      -- nothing has been lost so far, and nothing is now
      rw [h.full_eq, decide_eq_false_iff_not] at hfull
      rw [if_neg Bool.false_ne_true, List.map_append, hmessages, List.map_singleton]
      split
      · rfl
      · next hpos =>
          have hlt : bodies.length < options.maxLength := by omega
          split
          · rw [List.rtake, List.rtake, List.length_append, List.length_singleton,
              Nat.sub_eq_zero_of_le hlt.le, Nat.sub_eq_zero_of_le hlt, List.drop_zero,
              List.drop_zero]
          · rw [List.take_of_length_le hlt.le, List.take_of_length_le (by simpa using hlt)]
  | true =>
      rw [h.full_eq, decide_eq_true_eq] at hfull
      obtain ⟨hpos, hle⟩ := hfull
      rw [if_neg hpos.ne'] at hmessages
      rw [if_pos rfl, if_neg hpos.ne', h.stored]
      cases hpolicy : options.overflow with
      | dropHead =>
          rw [if_pos hpolicy] at hmessages
          rw [if_pos rfl, List.map_append, List.map_tail, hmessages, List.map_singleton,
            tail_rtake_append hpos hle]
      | rejectPublish =>
          rw [if_neg (by simp [hpolicy])] at hmessages
          rw [if_neg (by simp), List.take_append_of_le_length hle]
          exact hmessages
      | rejectPublishDlx =>
          rw [if_neg (by simp [hpolicy])] at hmessages
          rw [if_neg (by simp), List.take_append_of_le_length hle]
          exact hmessages

end TopicState

namespace Broker

/-- A publish to a topic in no group. -/
theorem publish_ungrouped {b : Broker} (hforensic : Forensic b) {topic : Topic}
    {state : TopicState} (hfind : b.find topic = some state) (hgroup : state.options.group = "")
    (body : Bytes) (route : String) :
    ∃ message b', message.body = body ∧ publish topic body route b = (.ok state.accepts, b') ∧
      b'.find topic = some (state.offeredTo message) := by
  have htouched : (b.touch topic).find topic = some state := by
    rw [find_touch, if_pos rfl, hfind, Option.getD_some]
  obtain ⟨b', hrun, henqueued⟩ := offer_enqueued (hforensic.touch topic) htouched body
  refine ⟨(b.touch topic).fresh body, b', rfl, ?_, henqueued.self⟩
  simp only [publish, Exec.get_bind, hfind, Option.getD_some, if_pos hgroup, Exec.set_bind]
  exact hrun

end Broker

namespace System

/-- A send to the topic that reaches the broker: its body, and what its caller is
answered. -/
def sendTo (topic : Topic) (s : System) : Action → Option (Bytes × Answer)
  | .send i name payload options =>
      match s.transports[i]? with
      | none => none
      | some t =>
          if name = topic ∧ t.publishes options = true then
            some (payload, s.answer (.send i name payload options))
          else none
  | _ => none

/-- The sends to the topic along a list of actions. -/
def sendsTo (topic : Topic) : System → List Action → List (Bytes × Answer)
  | _, [] => []
  | s, a :: rest => (s.sendTo topic a).toList ++ sendsTo topic (s.step a) rest

/-- The action is a send to the topic, or leaves it as it is. -/
def OnlySent (topic : Topic) (s : System) (a : Action) : Prop :=
  (s.sendTo topic a).isSome = true ∨ (s.step a).broker.find topic = s.broker.find topic

instance (topic : Topic) (s : System) (a : Action) : Decidable (OnlySent topic s a) :=
  inferInstanceAs (Decidable (_ ∨ _))

theorem answer_send {s : System} {i : Nat} {t : InMemoryTransport} {options : SendOptions}
    (hlookup : s.transports[i]? = some t) (hpublishes : t.publishes options = true)
    (topic : Topic) (payload : Bytes) : s.answer (.send i topic payload options) =
      .sent (publish topic payload options.route s.broker).1 := by
  simp only [InMemoryTransport.publishes, Bool.and_eq_true, Bool.not_eq_true'] at hpublishes
  obtain ⟨⟨hcallable, hconnected⟩, hdurable⟩ := hpublishes
  simp only [answer, ask, hlookup, hcallable, if_true, InMemoryTransport.send, Exec.get_bind]
  rw [if_neg (by simp [hconnected]), if_neg (by simp [hdurable]), Exec.bind_apply, onBroker_apply]
  rcases publish topic payload options.route s.broker with ⟨r, c⟩
  cases r with
  | ok accepted => rfl
  | error e => rfl

/-- The topic holds what its options keep of these bodies. -/
def Holds (topic : Topic) (options : TopicOptions) (bodies : List Bytes) (s : System) : Prop :=
  ∃ state, s.broker.find topic = some state ∧ state.Keeps options bodies

section Stretch

variable {topic : Topic} {options : TopicOptions} {bodies : List Bytes} {s : System}

/-- The step lemma. -/
theorem Holds.step {a : Action} (h : Holds topic options bodies s) (hgroup : options.group = "")
    (hforensic : Forensic s.broker) (honly : OnlySent topic s a) :
    Holds topic options (bodies ++ (s.sendTo topic a).toList.map Prod.fst) (s.step a) ∧
      ∀ send, s.sendTo topic a = some send →
        send.2 = .sent (.ok (TopicState.acceptsAfter options bodies.length)) := by
  obtain ⟨state, hfind, hkeeps⟩ := h
  cases hsend : s.sendTo topic a with
  | none =>
      have hnot : ¬ (s.sendTo topic a).isSome = true := by
        rw [hsend]
        exact Bool.false_ne_true
      have hsame := honly.resolve_left hnot
      refine ⟨⟨state, hsame.trans hfind, ?_⟩, fun send h => absurd h (by simp)⟩
      rw [Option.toList_none, List.map_nil, List.append_nil]
      exact hkeeps
  | some send =>
      cases a with
      | send i name payload sendOptions =>
          simp only [sendTo] at hsend
          cases hlookup : s.transports[i]? with
          | none =>
              rw [hlookup] at hsend
              exact absurd hsend (by simp)
          | some t =>
              rw [hlookup] at hsend
              by_cases hreaches : name = topic ∧ t.publishes sendOptions = true
              · simp only [if_pos hreaches] at hsend
                obtain ⟨rfl, hpublishes⟩ := hreaches
                rw [answer_send hlookup hpublishes] at hsend
                obtain rfl := Option.some.inj hsend
                obtain ⟨message, b', rfl, hrun, hself⟩ := publish_ungrouped hforensic hfind
                  (by rw [hkeeps.stored, hgroup]) payload sendOptions.route
                obtain ⟨stats, hstep⟩ := step_send hlookup hpublishes name message.body
                rw [hstep, hrun]
                refine ⟨⟨_, hself, hkeeps.offeredTo message⟩, fun send h => ?_⟩
                rw [← Option.some.inj h, hkeeps.accepts_eq]
              · simp only [if_neg hreaches] at hsend
                exact absurd hsend (by simp)
      | _ => exact absurd hsend (by simp [sendTo])

/-- The run lemma. -/
theorem Holds.runFrom {actions : List Action} (h : Holds topic options bodies s)
    (hgroup : options.group = "") (hprovided : Provided s)
    (honly : machine.GuardedFrom (OnlySent topic) s actions) :
    Holds topic options (bodies ++ (sendsTo topic s actions).map Prod.fst)
        (machine.runFrom s actions) ∧
      ∀ (k : Nat) (send : Bytes × Answer), (sendsTo topic s actions)[k]? = some send →
        send.2 = .sent (.ok (TopicState.acceptsAfter options (bodies.length + k))) := by
  induction actions generalizing s bodies with
  | nil =>
      refine ⟨?_, fun k send hk => absurd hk (by simp [sendsTo])⟩
      rw [sendsTo, List.map_nil, List.append_nil]
      exact h
  | cons a rest ih =>
      obtain ⟨hnext, hanswer⟩ := h.step hgroup hprovided.forensic honly.1
      obtain ⟨hrest, hanswers⟩ := ih hnext (hprovided.step a) honly.2
      rw [List.append_assoc, ← List.map_append] at hrest
      refine ⟨hrest, fun k send hk => ?_⟩
      rw [sendsTo] at hk
      cases hsend : s.sendTo topic a with
      | none =>
          rw [hsend, Option.toList_none, List.nil_append] at hk
          have hlater := hanswers k send hk
          rwa [hsend, Option.toList_none, List.map_nil, List.append_nil] at hlater
      | some first =>
          rw [hsend, Option.toList_some, List.singleton_append] at hk
          cases k with
          | zero =>
              rw [List.getElem?_cons_zero] at hk
              obtain rfl := Option.some.inj hk
              exact hanswer first hsend
          | succ k =>
              rw [List.getElem?_cons_succ] at hk
              have hlater := hanswers k send hk
              rw [hsend, Option.toList_some, List.map_singleton, List.length_append,
                List.length_singleton] at hlater
              rwa [Nat.add_right_comm] at hlater

/-- A declaration in no group creates a topic that does not exist. -/
theorem holds_declared {i : Nat} {t : InMemoryTransport}
    (hlookup : s.transports[i]? = some t) (halive : t.destroyed = false)
    (hdeclaring : t.declaring = some (topic, options)) (hfresh : s.broker.find topic = none)
    (hgroup : options.group = "") : Holds topic options [] (s.step (.ensureTopicSource i)) := by
  have hrun : (Broker.ensureTopic topic options s.broker).2 =
      s.broker.write topic (declared topic options) := by
    simp [Broker.ensureTopic, ensureGroup, hgroup, hfresh, declared]
  refine ⟨declared topic options, ?_, rfl, by simp [declared, TopicState.kept]⟩
  simp only [System.step]
  rw [call_of_may _ hlookup (by simp [halive])]
  simp only [endEnsureTopic, Exec.get_bind, hdeclaring, setSelf_bind, ensureTopicSource,
    onBroker_apply]
  rw [hrun, find_write_self]

end Stretch

/-- A topic in no group is declared in any state of any run and then only sent to.
Unbounded, or with drop-head, it accepts every send and holds the last bodies;
otherwise it accepts as many sends as it may hold, and holds the first. -/
theorem sends_to_declared (before : List Action) {i : Nat} {t : InMemoryTransport} {topic : Topic}
    {options : TopicOptions} (hlookup : (machine.run before).transports[i]? = some t)
    (halive : t.destroyed = false) (hdeclaring : t.declaring = some (topic, options))
    (hfresh : (machine.run before).broker.find topic = none) (hgroup : options.group = "")
    (sends : List Action)
    (honly : machine.GuardedFrom (OnlySent topic)
      ((machine.run before).step (.ensureTopicSource i)) sends) :
    ∃ state made, made = sendsTo topic ((machine.run before).step (.ensureTopicSource i)) sends ∧
      (machine.run (before ++ .ensureTopicSource i :: sends)).broker.find topic = some state ∧
      (options.maxLength = 0 ∨ options.overflow = .dropHead →
        (∀ send ∈ made, send.2 = .sent (.ok true)) ∧
        state.messages.map (·.body) = (made.map Prod.fst).rtake
          (if options.maxLength = 0 then made.length else min made.length options.maxLength)) ∧
      (0 < options.maxLength ∧ options.overflow ≠ .dropHead →
        (∀ (k : Nat) (send : Bytes × Answer), made[k]? = some send →
          send.2 = .sent (.ok (decide (k + 1 ≤ options.maxLength)))) ∧
        state.messages.map (·.body) =
          (made.map Prod.fst).take (min made.length options.maxLength)) := by
  have hprovided : Provided (machine.run before) := (always_provided before).last
  have hholds := holds_declared hlookup halive hdeclaring hfresh hgroup
  obtain ⟨⟨state, hfind, hkeeps⟩, hanswers⟩ := hholds.runFrom hgroup
    (hprovided.step (.ensureTopicSource i)) honly
  rw [List.nil_append] at hkeeps
  refine ⟨state, _, rfl, ?_, fun hlast => ⟨fun send hsend => ?_, ?_⟩,
    fun hfirst => ⟨fun k send hk => ?_, ?_⟩⟩
  · rw [Machine.run, Machine.runFrom_append]
    exact hfind
  · obtain ⟨k, hk⟩ := List.getElem?_of_mem hsend
    rw [hanswers k send hk, TopicState.acceptsAfter, decide_eq_true (hlast.imp_right .inl)]
  · rw [hkeeps.messages, TopicState.kept]
    split
    · rw [List.rtake, List.length_map, Nat.sub_self, List.drop_zero]
    · next hpos =>
        rw [if_pos (hlast.resolve_left hpos), List.rtake, List.rtake, List.length_map]
        congr 1
        omega
  · rw [hanswers k send hk, TopicState.acceptsAfter, List.length_nil, Nat.zero_add]
    congr 2
    rw [decide_eq_decide]
    refine ⟨fun h => ?_, fun h => .inr (.inr h)⟩
    exact (h.resolve_left hfirst.1.ne').resolve_left hfirst.2
  · rw [hkeeps.messages, TopicState.kept, if_neg hfirst.1.ne', if_neg hfirst.2,
      List.take_eq_take_min, List.length_map, Nat.min_comm]

/-- A topic that holds two messages and dead-letters what it refuses. -/
def refusingRun : List Action :=
  [.create, .connect 0, .ensureTopic 0 "jobs" { maxLength := 2, overflow := .rejectPublishDlx }]

/-- It is sent to while another transport is created. -/
def refusedSends : List Action :=
  let plain : SendOptions := { durable := false }
  [.send 0 "jobs" [1] plain, .create, .send 0 "jobs" [2] plain, .send 0 "jobs" [3] plain]

theorem sends_to_declared_refusingRun : ∃ state,
    (machine.run (refusingRun ++ .ensureTopicSource 0 :: refusedSends)).broker.find "jobs" =
        some state ∧
      state.messages.map (·.body) = [[1], [2]] := by
  have honly : machine.GuardedFrom (OnlySent "jobs")
      ((machine.run refusingRun).step (.ensureTopicSource 0)) refusedSends := by decide +kernel
  have hbodies : (sendsTo "jobs" ((machine.run refusingRun).step (.ensureTopicSource 0))
      refusedSends).map Prod.fst = [[1], [2], [3]] := by decide +kernel
  obtain ⟨state, made, rfl, hfind, -, hfirst⟩ := sends_to_declared refusingRun rfl rfl rfl
    (by decide +kernel) rfl refusedSends honly
  obtain ⟨-, hmessages⟩ := hfirst ⟨by decide, by decide⟩
  refine ⟨state, hfind, ?_⟩
  rw [hmessages, ← List.length_map Prod.fst, hbodies]
  rfl

end System

end Motus.InMemory
