import Motus.Consumer.Shift
import Motus.InMemory.Groups

set_option autoImplicit false

/-!
# What holds of every Consumer in every run

A Consumer subscribes a topic only after declaring it, so that its transport can always
reject what it has taken.  `Each` carries such facts about one Consumer and its
transport through a run.

`Staffed` is the invariant of the whole process, with one seat for each Consumer: what its
phase says about its transport, and that the delivery whose handler runs is outstanding.
-/

namespace Motus.InMemory.Broker

open Motus.Foundation Motus.Transport

/-- The topic exists, and so does its forensic destination if it dead-letters. -/
def Sound (b : Broker) (topic : Topic) : Prop :=
  ∃ options, b.optionsOf topic = some options ∧
    (options.deadLetter = true → (b.find (deadLetterTopic topic)).isSome = true)

theorem Sound.extends {b b' : Broker} {topic : Topic} (h : b.Sound topic)
    (hextends : Extends b b') : b'.Sound topic := by
  obtain ⟨options, hoptions, hforensic⟩ := h
  exact ⟨options, hextends topic options hoptions,
    fun hdead => hextends.isSome (hforensic hdead)⟩

/-- A declaration whose forensic destination is there leaves a topic that is sound. -/
theorem sound_ensureTopic {topic : Topic} {options : TopicOptions} {b : Broker}
    (hdeclared : (ensureTopic topic options b).1 = .ok ())
    (hready : options.deadLetter = true → (b.find (deadLetterTopic topic)).isSome = true) :
    (ensureTopic topic options b).2.Sound topic := by
  obtain ⟨stored, hstored, hagrees⟩ := agrees_of_ensureTopic hdeclared
  refine ⟨stored, hstored, fun hdead => ?_⟩
  have hsame : stored.deadLetter = options.deadLetter := by
    simp only [agrees, Bool.and_eq_true, beq_iff_eq] at hagrees
    exact hagrees.1.1.2
  exact (extends_ensureTopic topic options b).isSome (hready (hsame ▸ hdead))

/-- Every disposition can be carried out at a sound topic. -/
theorem Sound.performs {b : Broker} {topic : Topic} (h : b.Sound topic) (hbacked : b.Backed)
    (entry : Entry) (message : Held) (d : Disposition) :
    (b.log entry).performs topic message d = .ok () := by
  have hlogged : (b.log entry).Backed := hbacked.of_sameTopics (.of_find fun _ => rfl)
  refine (performs_eq_ok_iff hlogged topic message d).mpr fun _ hdead => ?_
  obtain ⟨options, hoptions, hforensic⟩ := h
  obtain ⟨state, hfind, rfl⟩ := Option.map_eq_some_iff.mp hoptions
  exact hforensic ((deadLetters_of_find hfind).symm.trans hdead)

end Motus.InMemory.Broker

namespace Motus.Consumer

open Motus.Foundation Motus.Transport Motus.InMemory InMemoryTransport

namespace Workers

/-- Every Consumer has its transport, and `P` holds of the two. -/
def Each (P : Broker → Consumer → InMemoryTransport → Prop) (w : Workers) : Prop :=
  ∀ i c, w.consumers i = some c →
    ∃ t, w.system.transports[i]? = some t ∧ P w.system.broker c t

section Each

variable {P : Broker → Consumer → InMemoryTransport → Prop} {w : Workers}

theorem each_init : machine.init.Each P := fun _ _ h => absurd h (by simp [machine])

theorem Each.of_lookup (h : w.Each P) {i : Nat} {c : Consumer} {t : InMemoryTransport}
    (hc : w.consumers i = some c) (ht : w.system.transports[i]? = some t) :
    P w.system.broker c t := by
  obtain ⟨u, hu, hP⟩ := h i c hc
  obtain rfl := Option.some.inj (hu.symm.trans ht)
  exact hP

/-- What holds of a Consumer when it is constructed and is kept by whatever happens to it
holds of every Consumer. -/
theorem Each.step {a : Work}
    (hnew : ∀ i c t, w.Constructs i a c t → P w.system.broker c t)
    (hshift : ∀ i c t c' t', w.consumers i = some c → w.system.transports[i]? = some t →
      Shift w.system.broker (w.step a).system.broker i a c t c' t' → P w.system.broker c t →
      P (w.step a).system.broker
        { c' with ledger.resolved := c'.ledger.resolved ++ observed t t' } t')
    (h : w.Each P) : (w.step a).Each P := by
  intro i c hc
  rcases step_consumer hc with ⟨old, hold⟩ | ⟨t, hconstructs⟩
  · obtain ⟨t, ht, hP⟩ := h i old hold
    obtain ⟨c', t', hc', ht', hbecome⟩ := step_shift hold ht a
    obtain rfl := Option.some.inj (hc.symm.trans hc')
    exact ⟨t', ht', hshift i old t c' t' hold ht hbecome hP⟩
  · rw [hconstructs.same]
    exact ⟨t, hconstructs.lookup, hnew i c t hconstructs⟩

end Each

/-! ## The transport of a Consumer -/

/-- Between any two pieces of work a transport is where its Consumer left it. -/
structure Seat (b : Broker) (c : Consumer) (t : InMemoryTransport) : Prop where
  sound : t.subscribed = true → b.Sound t.topic
  resting : c.phase ≠ .handling → t.handling = none
  /-- the delivery whose handler runs is outstanding -/
  held : ∀ message, t.handling = some message → t.outstanding[message.sequence]? = some message

theorem Seat.shift {b b' : Broker} {i : Nat} {a : Work} {c c' : Consumer}
    {t t' : InMemoryTransport} (hshift : Shift b b' i a c t c' t') (h : Seat b c t)
    (hextends : b.Extends b')
    (hready : ∀ topic options, t.declaring = some (topic, options) → options.deadLetter = true →
      (b.find (deadLetterTopic topic)).isSome = true) : Seat b' c' t' := by
  have hsound : t.subscribed = true → b'.Sound t.topic := fun ht => (h.sound ht).extends hextends
  have hnone : ∀ handle d, c.phase = .settling handle d → t.handling = none := by
    intro handle d hphase
    refine h.resting ?_
    rw [hphase]
    simp
  cases hshift with
  | quiet hbooks hsteady =>
      refine ⟨fun ht => ?_, fun hphase => ?_, fun message hmessage => ?_⟩
      · rw [hsteady.subscribed] at ht
        rw [hsteady.topic]
        exact hsound ht
      · rw [hsteady.handling]
        refine h.resting fun heq => ?_
        rcases hbooks.phase with hsame | ⟨hresting, -⟩
        · exact hphase (hsame.trans heq)
        · rw [heq] at hresting
          exact absurd hresting Bool.false_ne_true
      · rw [hsteady.handling] at hmessage
        rw [hsteady.outstanding]
        exact h.held message hmessage
  | pushed handle d => exact ⟨hsound, h.resting, h.held⟩
  | closed haction hphase hidle hgone =>
      have hhandling : t.handling = none := h.resting (by rw [hphase]; simp)
      refine ⟨fun ht => ?_, fun _ => hgone.handling.trans hhandling, fun message hmessage => ?_⟩
      · rw [hgone.subscribed] at ht
        exact absurd ht Bool.false_ne_true
      · rw [hgone.handling, hhandling] at hmessage
        exact absurd hmessage (by simp)
  | subscribed topic options haction hphase hdeclaring hdeclared hbroker =>
      refine ⟨fun _ => ?_, fun _ => h.resting (by rw [hphase]; simp), h.held⟩
      rw [hbroker]
      exact Broker.sound_ensureTopic hdeclared (hready topic options hdeclaring)
  | popped handle d rest haction hphase =>
      exact ⟨hsound, fun _ => h.resting (by rw [hphase]; simp), h.held⟩
  | settled handle d message hd haction hphase =>
      refine ⟨fun ht => ?_, fun _ => ?_, fun m hm => ?_⟩
      · rw [counted_subscribed] at ht
        rw [counted_topic]
        exact hsound ht
      · rw [counted_handling]
        exact hnone handle d hphase
      · rw [counted_handling] at hm
        exact absurd ((hnone handle d hphase).symm.trans hm) (by simp)
  | failed handle d message e hd haction hphase =>
      refine ⟨hsound, fun _ => hnone handle d hphase, fun m hm => ?_⟩
      exact absurd ((hnone handle d hphase).symm.trans hm) (by simp)
  | refused handle d e haction hphase =>
      exact ⟨hsound, fun _ => hnone handle d hphase, h.held⟩
  | called state message rest haction hphase hidle hconnected hhandler hempty =>
      refine ⟨hsound, fun hnot => absurd rfl hnot, fun m hm => ?_⟩
      obtain rfl := Option.some.inj hm
      exact (getElem?_insertIfNew_of_isEmpty hempty _ _ _).trans (if_pos rfl)
  | escaped message ending what =>
      exact ⟨hsound, fun _ => rfl, fun m hm => absurd hm (by simp)⟩
  | deferred message ending =>
      exact ⟨hsound, fun _ => rfl, fun m hm => absurd hm (by simp)⟩
  | concluded message ending d =>
      refine ⟨fun ht => ?_, fun _ => counted_handling _ _ _, fun m hm => ?_⟩
      · rw [counted_subscribed] at ht
        rw [counted_topic]
        exact hsound ht
      · rw [counted_handling] at hm
        exact absurd hm (by simp)

/-- What holds in every state of every run. -/
structure Staffed (w : Workers) : Prop where
  standing : System.Standing w.system
  declarations : System.DeclarationsReady w.system
  backed : w.system.broker.Backed
  attached : System.Attached w.system
  seats : w.Each Seat

theorem staffed_init : Staffed machine.init :=
  ⟨System.standing_init, System.declarationsReady_init, System.backed_init, System.attached_init,
    each_init⟩

theorem Staffed.tidy {w : Workers} (h : w.Staffed) {i : Nat} {t : InMemoryTransport}
    (ht : w.system.transports[i]? = some t) : t.Tidy :=
  h.standing.tidy t (List.mem_of_getElem? ht)

/-- A transport that nobody has used holds nothing. -/
theorem Staffed.empty_of_constructs {w : Workers} (h : w.Staffed) {i : Nat} {a : Work}
    {c : Consumer} {t : InMemoryTransport} (hconstructs : w.Constructs i a c t) :
    t.outstanding.isEmpty = true ∧ t.handling = none := by
  refine (h.tidy hconstructs.lookup).unsubscribed ?_
  have hunused := hconstructs.unused
  simp only [unused, Bool.and_eq_true, Bool.not_eq_true'] at hunused
  exact hunused.1

theorem Staffed.step {w : Workers} (h : w.Staffed) (a : Work) : (w.step a).Staffed := by
  -- the part about the system is kept by every call
  obtain ⟨⟨hstanding, hdeclarations, hbacked, hattached⟩, hextends⟩ := system_step
    (P := fun s => (System.Standing s ∧ System.DeclarationsReady s ∧ s.broker.Backed ∧
      System.Attached s) ∧ w.system.broker.Extends s.broker)
    (fun s b hs => ⟨⟨hs.1.1.step b, hs.1.2.1.step hs.1.1 b,
      hs.1.1.backed_step hs.1.2.1 hs.1.2.2.1 b, hs.1.2.2.2.step b⟩,
      fun t o ht => hs.1.1.extends b t o (hs.2 t o ht)⟩)
    a ⟨⟨h.standing, h.declarations, h.backed, h.attached⟩, .refl _⟩
  refine ⟨hstanding, hdeclarations, hbacked, hattached, h.seats.step ?_ ?_⟩
  · intro i c t hconstructs
    obtain ⟨hempty, hnone⟩ := h.empty_of_constructs hconstructs
    have hunused := hconstructs.unused
    simp only [unused, Bool.and_eq_true, Bool.not_eq_true'] at hunused
    refine ⟨fun ht => ?_, fun _ => hnone, fun message hmessage => ?_⟩
    · rw [hunused.1] at ht
      exact absurd ht Bool.false_ne_true
    · rw [hnone] at hmessage
      exact absurd hmessage (by simp)
  · intro i c t c' t' hc ht hshift hseat
    have hnext := hseat.shift hshift hextends
      (h.declarations t (List.mem_of_getElem? ht))
    exact ⟨hnext.sound, hnext.resting, hnext.held⟩

theorem always_staffed (actions : List Work) : machine.Always Staffed actions :=
  .of_step actions (fun _ a h => h.step a) staffed_init

section Busy

variable {w : Workers} (h : w.Staffed) {i : Nat} {c : Consumer} {t : InMemoryTransport}
  (hc : w.consumers i = some c) (ht : w.system.transports[i]? = some t)
include h hc ht

/-- What the transport of a Consumer holds can be settled with any disposition. -/
theorem Staffed.performs {tag : Nat} {held : Held} (hheld : t.outstanding[tag]? = some held)
    (entry : Entry) (message : Held) (d : Disposition) :
    (w.system.broker.log entry).performs t.topic message d = .ok () := by
  have hsubscribed : t.subscribed = true := by
    cases hnot : t.subscribed with
    | true => rfl
    | false =>
        have hempty := ((h.tidy ht).unsubscribed hnot).1
        rw [getElem?_of_isEmpty hempty] at hheld
        exact absurd hheld (by simp)
  exact ((h.seats.of_lookup hc ht).sound hsubscribed).performs h.backed entry message d

end Busy

end Workers

end Motus.Consumer
