import Motus.InMemory.Routing
import Motus.InMemory.Writes

set_option autoImplicit false

/-!
# Sending to a topic that nobody has declared

`publish` looks its topic up with `_topics[topic]`, which creates it.  A send to a
name that was never declared therefore leaves a topic with default options behind,
and the message waits there.

In memory nothing that was sent evaporates unless the send itself was refused.  The
answers of a run are read with the states they were given in, so that this can be said
of each send and everything that comes after it.
-/

namespace Motus.InMemory

open Motus.Foundation Motus.Transport Broker InMemoryTransport

/-- What the caller of an action is answered. -/
inductive Answer where
  /-- the call could not be made, or answers nothing -/
  | silent
  | done (result : Except Exn Unit)
  | sent (result : Except Exn Bool)
  | count (result : Except Exn Nat)
  | turn (result : Except Exn PumpTurn)
  deriving DecidableEq

namespace System

/-- What a method answers on transport `i`, if it can be called there. -/
def ask {α : Type} (s : System) (i : Nat) (may : InMemoryTransport → Bool) (x : Method α)
    (answer : Except Exn α → Answer) : Answer :=
  match s.transports[i]? with
  | none => .silent
  | some t => if may t then answer (x ⟨s.broker, t, i⟩).1 else .silent

/-- What an action answers its caller. -/
def answer (s : System) : Action → Answer
  | .create | .connect _ | .close _ | .destroy _ => .silent
  | .ensureTopic i topic options => s.ask i callable (beginEnsureTopic topic options) .done
  | .ensureTopicSource i => s.ask i (fun t => !t.destroyed) endEnsureTopic .done
  | .send i topic payload options =>
      s.ask i callable (InMemoryTransport.send topic payload options) .sent
  | .subscribe i topic handler => s.ask i callable (InMemoryTransport.subscribe topic handler) .done
  | .purgeTopic i topic => s.ask i callable (InMemoryTransport.purgeTopic topic) .count
  | .pump i => s.ask i idle pumpTurn .turn
  | .handlerReturns i outcome => s.ask i callable (endPump outcome) .done
  | .settle i tag disposition => s.ask i callable (InMemoryTransport.settle tag disposition) .done

/-- What the callers of a list of actions are answered. -/
def answers (s : System) : List Action → List Answer
  | [] => []
  | a :: rest => s.answer a :: answers (s.step a) rest

/-- A call on the broker declares the topic, for its own sake or as a forensic
destination, and is accepted. -/
def Declares (topic : Topic) (s : System) : Action → Prop
  | .ensureTopic i source options => ∃ t, s.transports[i]? = some t ∧ t.callable = true ∧
      t.connected = true ∧ options.deadLetter = true ∧ deadLetterTopic source = topic ∧
      (Broker.ensureTopic topic (forensicTopicOptions source) s.broker).1 = .ok ()
  | .ensureTopicSource i => ∃ t options, s.transports[i]? = some t ∧ t.destroyed = false ∧
      t.declaring = some (topic, options) ∧
      (Broker.ensureTopic topic options s.broker).1 = .ok ()
  | _ => False

/-- The send has left nothing behind: there is no topic that was not there, nothing else
waits in any topic, and whatever is called afterwards is answered as it would have
been without the send. -/
structure Evaporates (s : System) (i : Nat) (topic : Topic) (payload : Bytes)
    (options : SendOptions) : Prop where
  topics : ∀ t, ((s.step (.send i topic payload options)).broker.find t).isSome = true →
    (s.broker.find t).isSome = true
  queues : ∀ t state after, s.broker.find t = some state →
    (s.step (.send i topic payload options)).broker.find t = some after →
    after.messages = state.messages
  later : ∀ actions, (s.step (.send i topic payload options)).answers actions = s.answers actions

/-- The topic does not exist, or it is one that a send has created. -/
def Implicit (b : Broker) (topic : Topic) : Prop :=
  ∀ options, b.optionsOf topic = some options → options = {}

/-! ## Undeclared topics stay as a send creates them -/

theorem Implicit.ensureTopic {b : Broker} {topic : Topic} (h : Implicit b topic) {t : Topic}
    {options : TopicOptions}
    (hnot : ¬ (t = topic ∧ (Broker.ensureTopic t options b).1 = .ok ())) :
    Implicit (Broker.ensureTopic t options b).2 topic := by
  intro stored hstored
  obtain ⟨groups, ⟨hsame, -⟩ | ⟨-, hnew⟩⟩ := ensureTopic_apply t options b
  · rw [hsame] at hstored
    exact h stored hstored
  · have hne : t ≠ topic := fun heq => hnot ⟨heq, by rw [hnew]⟩
    rw [hnew, optionsOf, find_write_of_ne _ hne] at hstored
    exact h stored hstored

theorem Implicit.publish {b : Broker} {topic : Topic} (h : Implicit b topic) (t : Topic)
    (body : Bytes) (route : String) : Implicit (publish t body route b).2 topic := by
  intro stored hstored
  rw [optionsOf_publish] at hstored
  split at hstored
  · next heq =>
      subst heq
      cases hbefore : b.optionsOf t with
      | none =>
          rw [hbefore, Option.getD_none] at hstored
          exact (Option.some.inj hstored).symm
      | some options =>
          rw [hbefore, Option.getD_some] at hstored
          rw [← Option.some.inj hstored]
          exact h options hbefore
  · exact h stored hstored

theorem Implicit.step {s : System} {topic : Topic} (h : Implicit s.broker topic)
    (hstanding : Standing s) {a : Action} (hnot : ¬ Declares topic s a) :
    Implicit (s.step a).broker topic := by
  rcases step_writes s a with hsame | ⟨i, t, hlookup, heffect⟩
  · rw [hsame]
    exact h
  · have hanchored := hstanding.anchored t (List.mem_of_getElem? hlookup)
    generalize (s.step a).broker = b' at heffect ⊢
    rcases heffect.topics hanchored with hsame | ⟨t', payload, options, rfl, -, rfl⟩ |
      ⟨source, options, rfl, hcallable, hconnected, hdead, rfl⟩ |
      ⟨t', options, rfl, halive, hdeclaring, rfl⟩
    · exact fun stored hstored => h stored ((hsame topic).symm.trans hstored)
    · exact h.publish t' payload options.route
    · refine h.ensureTopic fun hdeclared => hnot ?_
      obtain ⟨heq, hok⟩ := hdeclared
      subst heq
      exact ⟨t, hlookup, hcallable, hconnected, hdead, rfl, hok⟩
    · refine h.ensureTopic fun hdeclared => hnot ?_
      obtain ⟨heq, hok⟩ := hdeclared
      subst heq
      exact ⟨t, options, hlookup, halive, hdeclaring, hok⟩

/-- In every state of a run that never declares the topic, only sends have made it. -/
theorem implicit_of_undeclared {actions : List Action} {topic : Topic}
    (h : machine.Guarded (fun s a => ¬ Declares topic s a) actions) :
    Implicit (machine.run actions).broker topic := by
  have halways : machine.Always (fun s => Standing s ∧ Implicit s.broker topic) actions :=
    .of_guarded (fun s a hs hnot => ⟨hs.1.step a, hs.2.step hs.1 hnot⟩)
      ⟨standing_init, fun options hoptions => absurd hoptions (by simp [machine, optionsOf, find])⟩ h
  exact halways.last.2

/-- A publish to such a topic puts the message at its back. -/
theorem publish_implicit {b : Broker} {topic : Topic} (h : Implicit b topic) (body : Bytes)
    (route : String) : (publish topic body route b).2.find topic =
      some { (b.find topic).getD {} with
        messages := ((b.find topic).getD {}).messages ++ [b.fresh body] } := by
  have hoptions : ((b.find topic).getD {}).options = {} := by
    cases hfind : b.find topic with
    | none => rfl
    | some state => exact h _ (optionsOf_of_find hfind)
  obtain ⟨b', hrun, hbecomes⟩ := @publish_plain b topic (by rw [hoptions])
    (by simp [TopicState.full, hoptions]) body route
  rw [hrun]
  exact hbecomes.self

/-- In every state of every run in which the topic was never declared, a send to it
evaporates exactly when it is refused before it reaches the broker. -/
theorem evaporates_iff_refused {actions : List Action} {topic : Topic}
    (hundeclared : machine.Guarded (fun s a => ¬ Declares topic s a) actions) (i : Nat)
    (payload : Bytes) (options : SendOptions) :
    Evaporates (machine.run actions) i topic payload options ↔
      ∀ t, (machine.run actions).transports[i]? = some t → t.publishes options = false := by
  have himplicit := implicit_of_undeclared hundeclared
  generalize machine.run actions = s at himplicit ⊢
  constructor
  · intro h t hlookup
    by_contra hpublishes
    obtain ⟨stats, hstep⟩ := step_send hlookup (eq_true_of_ne_false hpublishes) topic payload
    have hafter := publish_implicit himplicit payload options.route
    have hbroker := congrArg System.broker hstep
    cases hfind : s.broker.find topic with
    | none =>
        have hnew := h.topics topic (by rw [hbroker, hafter, Option.isSome_some])
        rw [hfind] at hnew
        exact absurd hnew Bool.false_ne_true
    | some state =>
        have hsame := h.queues topic state _ hfind (by rw [hbroker, hafter])
        rw [hfind, Option.getD_some] at hsame
        have hlength := congrArg List.length hsame
        rw [List.length_append, List.length_singleton] at hlength
        omega
  · intro hrefused
    have hsame : s.step (.send i topic payload options) = s := step_send_refused hrefused
    exact ⟨fun t ht => hsame ▸ ht,
      fun t state after hfind hafter => by
        rw [hsame, hfind] at hafter
        rw [Option.some.inj hafter],
      fun later => by rw [hsame]⟩

/-- A typing slip, and then the declaration that was meant. -/
def strayRun : List Action := [.create, .connect 0]

/-- The message waits, and the declaration that follows is refused. -/
theorem strayRun_lingers :
    machine.Guarded (fun s a => ¬ Declares "jobs" s a) strayRun ∧
      ¬ Evaporates (machine.run strayRun) 0 "jobs" [1] { durable := false } := by
  refine ⟨by simp [strayRun, Machine.Guarded, Machine.GuardedFrom, Declares], fun h => ?_⟩
  have hlater := h.later [.ensureTopic 0 "jobs" { deadLetter := false }, .ensureTopicSource 0]
  exact absurd hlater (by decide +kernel)

theorem evaporates_iff_refused_strayRun :
    ¬ Evaporates (machine.run strayRun) 0 "jobs" [1] { durable := false } := by
  have hundeclared : machine.Guarded (fun s a => ¬ Declares "jobs" s a) strayRun := by
    simp [strayRun, Machine.Guarded, Machine.GuardedFrom, Declares]
  rw [evaporates_iff_refused hundeclared 0 [1] { durable := false }]
  intro h
  exact absurd (h { connected := true } rfl) (by decide)

end System

end Motus.InMemory
