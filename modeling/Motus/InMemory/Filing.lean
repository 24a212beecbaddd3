import Motus.InMemory.Returns

set_option autoImplicit false

/-!
# Filing a message

`enqueueLocked` and `deadLetterLocked` write to the broker in four ways: a message is
pushed to the back of a topic, the head of a topic is taken off, a message is renumbered
for a forensic destination, and one is closed.  `Filing` is an invariant that the four
ways keep, together with what it asks of a message that is filed under a topic; whatever
is such an invariant is kept by publishing and by rejecting.
-/

namespace Motus.InMemory

open Motus.Foundation Motus.Transport

namespace Broker

/-- The single writes keep `I` when what is filed under a topic satisfies `Q`. -/
structure Filing (Q : Topic → Held → Prop) (I : Broker → Prop) : Prop where
  pushBack : ∀ {b topic message}, I b → Q topic message → I (b.pushBack topic message)
  pop : ∀ {b topic state message rest}, I b → b.find topic = some state →
    state.messages = message :: rest →
    I (b.write topic { state with messages := rest }) ∧ Q topic message
  close : ∀ {b message fate}, I b → fate ≠ .acked → I (b.close message fate)
  forward : ∀ {b source message}, I b → Q source message →
    I (b.deadLettered source message) ∧ Q (deadLetterTopic source) (b.renumbered message)
  offered : ∀ {b topic body}, I b → I (b.offered topic body)
  touch : ∀ {b topic}, I b → I (b.touch topic)
  groups : ∀ {b groups}, I b → I { b with groups := groups }

namespace Filing

variable {Q : Topic → Held → Prop} {I : Broker → Prop} (h : Filing Q I) {b : Broker}
include h

theorem deadLetterVia {enqueue : Topic → Held → Exec Exn Broker Bool}
    (henqueue : ∀ (topic : Topic) (message : Held) (b : Broker), (b.find topic).isSome = true →
      Q topic message → I b → I (enqueue topic message b).2)
    {source : Topic} {message : Held} (hmessage : Q source message) (hb : I b) :
    I (Broker.deadLetterVia enqueue source message b).2 := by
  cases hdead : b.deadLetters source with
  | false =>
      rw [deadLetterVia_closed hdead]
      exact h.close hb (by simp)
  | true =>
      cases hforensic : b.find (deadLetterTopic source) with
      | none =>
          rw [deadLetterVia_missing hdead hforensic]
          exact hb
      | some forensic =>
          obtain ⟨hnumbered, hrenumbered⟩ := h.forward hb hmessage
          rw [deadLetterVia_forward hdead hforensic]
          apply henqueue _ _ _ _ hrenumbered hnumbered
          rw [find_deadLettered, hforensic, Option.isSome_some]

theorem enqueueLocked (fuel : Nat) {topic : Topic} {message : Held} {b : Broker}
    (htopic : (b.find topic).isSome = true) (hmessage : Q topic message) (hb : I b) :
    I (Broker.enqueueLocked fuel topic message b).2 := by
  induction fuel generalizing topic message b with
  | zero => exact hb
  | succ fuel ih =>
      have hdeadLetter : ∀ {source : Topic} {evicted : Held} {c : Broker}, Q source evicted →
          I c → I (Broker.deadLetterVia (Broker.enqueueLocked fuel) source evicted c).2 :=
        h.deadLetterVia fun topic message c htopic hmessage hc => ih htopic hmessage hc
      obtain ⟨state, hfind⟩ := Option.isSome_iff_exists.mp htopic
      cases hfull : state.full with
      | false =>
          rw [enqueueLocked_room hfind hfull]
          exact h.pushBack hb hmessage
      | true =>
          cases hpolicy : state.options.overflow with
          | rejectPublish =>
              rw [enqueueLocked_refused hfind hfull (.inl hpolicy)]
              exact h.close hb (by simp)
          | rejectPublishDlx =>
              cases hdead : state.options.deadLetter with
              | false =>
                  rw [enqueueLocked_refused hfind hfull (.inr ⟨hpolicy, hdead⟩)]
                  exact h.close hb (by simp)
              | true =>
                  rw [enqueueLocked_dlx hfind hfull hpolicy hdead]
                  exact hdeadLetter hmessage hb
          | dropHead =>
              obtain ⟨evicted, rest, hmessages⟩ :=
                List.exists_cons_of_ne_nil (messages_ne_nil_of_full hfull)
              obtain ⟨hpopped, hevicted⟩ := h.pop hb hfind hmessages
              rw [enqueueLocked_dropHead hfind hfull hpolicy hmessages]
              cases hdead : state.options.deadLetter with
              | false => exact h.pushBack (h.close hpopped (by simp)) hmessage
              | true =>
                  have hgone := hdeadLetter hevicted hpopped
                  rw [if_pos rfl]
                  rcases hrun : Broker.deadLetterVia (Broker.enqueueLocked fuel) topic evicted
                    (b.write topic { state with messages := rest }) with ⟨r, c⟩
                  rw [hrun] at hgone
                  cases r with
                  | ok => exact h.pushBack hgone hmessage
                  | error e => exact hgone

theorem deadLetter {source : Topic} {message : Held} (hmessage : Q source message) (hb : I b) :
    I (Broker.deadLetter source message b).2 :=
  h.deadLetterVia (fun _ _ _ htopic hmessage hc => h.enqueueLocked _ htopic hmessage hc)
    hmessage hb

section Publish

variable {topic : Topic} {body : Bytes}

theorem offer (htopic : (b.find topic).isSome = true) (hfresh : ∀ c : Broker, Q topic (c.fresh body))
    (hb : I b) : I (Broker.offer topic body b).2 :=
  h.enqueueLocked b.topics.size (b := b.offered topic body) htopic (hfresh b) (h.offered hb)

/-- The destinations of a group are those that were declared into it. -/
theorem offerAll {group : String} {routing : Routing} {key : String}
    (hfresh : ∀ name options, b.optionsOf name = some options → options.group = group →
      ∀ c : Broker, Q name (c.fresh body))
    (names : List Topic) {c : Broker} (hsame : SameTopics b c)
    (hnames : ∀ name ∈ names, (c.find name).isSome = true) (accepted : Bool) (hc : I c) :
    I (Broker.offerAll group routing key body names accepted c).2 := by
  induction names generalizing c accepted with
  | nil => exact hc
  | cons name rest ih =>
      have hname := hnames name List.mem_cons_self
      have hrest : ∀ name ∈ rest, (c.find name).isSome = true :=
        fun name hmem => hnames name (List.mem_cons_of_mem _ hmem)
      simp only [Broker.offerAll, Exec.get_bind]
      split
      · next hmatch =>
          obtain ⟨state, hfind⟩ := Option.isSome_iff_exists.mp hname
          rw [hfind, Option.getD_some] at hmatch
          have hoptions : b.optionsOf name = some state.options := by
            rw [← hsame name, optionsOf_of_find hfind]
          have hoffer := h.offer hname (hfresh name state.options hoptions hmatch.1) hc
          have hkept := sameTopics_of_evolves (offer_evolves hname body)
          rw [Exec.bind_apply]
          rcases hrun : Broker.offer name body c with ⟨r, d⟩
          rw [hrun] at hoffer hkept
          cases r with
          | error e => exact hoffer
          | ok stored =>
              exact ih (hsame.trans hkept)
                (fun name hmem => hkept.extends.isSome (hrest name hmem)) _ hoffer
      · exact ih hsame hrest accepted hc

end Publish

end Filing

/-- A send to `target` can reach the topic: it is the target, or in its routing group. -/
def Serves (b : Broker) (target topic : Topic) : Prop :=
  topic = target ∨ ∃ options options', b.optionsOf target = some options ∧
    b.optionsOf topic = some options' ∧ options.group ≠ "" ∧ options'.group = options.group

theorem Serves.extends {b b' : Broker} {target topic : Topic} (h : b.Serves target topic)
    (hextends : Extends b b') : b'.Serves target topic := by
  rcases h with h | ⟨options, options', htarget, htopic, hgroup⟩
  · exact .inl h
  · exact .inr ⟨options, options', hextends _ _ htarget, hextends _ _ htopic, hgroup⟩

/-- Publishing keeps what filing keeps, when the body may be filed under every topic that
the send can reach. -/
theorem Filing.publish {Q : Topic → Held → Prop} {I : Broker → Prop} (h : Filing Q I)
    {b : Broker} {topic : Topic} {body : Bytes}
    (hfresh : ∀ t, b.Serves topic t → ∀ c : Broker, Q t (c.fresh body)) (hb : I b)
    (route : String) : I (Broker.publish topic body route b).2 := by
  simp only [Broker.publish, Exec.get_bind]
  split
  · have hfound : ((b.touch topic).find topic).isSome = true := by
      rw [find_touch, if_pos rfl, Option.isSome_some]
    exact h.offer hfound (hfresh topic (.inl rfl)) (h.touch hb)
  · next hgroup =>
      cases hfind : b.find topic with
      | none =>
          rw [hfind] at hgroup
          exact absurd rfl hgroup
      | some origin =>
          rw [hfind, Option.getD_some] at hgroup
          have hsame : SameTopics b { b with
              groups := b.groups.insertIfNew origin.options.group .exact } :=
            .of_find fun _ => rfl
          refine h.offerAll (fun name options hname hjoined => ?_) b.topics.keys hsame
            (fun name hname => (mem_keys_iff b name).mp hname) true (h.groups hb)
          exact hfresh name (.inr ⟨origin.options, options, optionsOf_of_find hfind, hname,
            hgroup, hjoined⟩)

end Broker

end Motus.InMemory
