import Motus.InMemory.Standing

set_option autoImplicit false

/-!
# Forensic destinations

A topic that dead-letters needs its forensic destination.  `ensureTopic` declares
the two together, forensic destination first, and nothing removes a topic; the
other way a topic comes into being is a send to a name nobody has declared.

A rejection in such a topic finds no forensic destination and throws, and the message is
gone.  Every topic is provisioned throughout a run exactly if its sends are to declared
topics.
-/

namespace Motus.InMemory

open Motus.Foundation Motus.Transport

namespace Broker

/-- Every topic stored with `deadLetter = true` has its forensic destination. -/
def Provisioned (b : Broker) : Prop :=
  ∀ t options, b.optionsOf t = some options → options.deadLetter = true →
    (b.find (deadLetterTopic t)).isSome = true

theorem Provisioned.of_sameTopics {b b' : Broker} (h : Provisioned b) (hsame : SameTopics b b') :
    Provisioned b' := by
  intro t options hoptions hdead
  rw [hsame t] at hoptions
  exact hsame.extends.isSome (h t options hoptions hdead)

theorem Provisioned.find {b : Broker} (h : Provisioned b) {topic : Topic}
    (hdead : b.deadLetters topic = true) :
    ∃ forensic, b.find (deadLetterTopic topic) = some forensic := by
  cases hfind : b.find topic with
  | none => simp [deadLetters, hfind] at hdead
  | some state =>
      rw [deadLetters_of_find hfind] at hdead
      exact Option.isSome_iff_exists.mp (h topic _ (optionsOf_of_find hfind) hdead)

/-! ## Dead-lettering does not throw

The recursion of `enqueueLocked` climbs to names that are longer each time, so the
number of topics with a name at least as long bounds what it still has to do. -/

/-- The names of the topics. -/
def names (b : Broker) : Finset Topic := b.topics.keys.toFinset

theorem mem_names (b : Broker) (t : Topic) : t ∈ b.names ↔ (b.find t).isSome = true := by
  rw [names, List.mem_toFinset, mem_keys_iff]

theorem card_names_le (b : Broker) : b.names.card ≤ b.topics.size := by
  rw [← Std.TreeMap.length_keys]
  exact List.toFinset_card_le _

/-- The topics whose name has at least `n` characters. -/
def deeper (b : Broker) (n : Nat) : Finset Topic := b.names.filter (n ≤ ·.length)

theorem deeper_of_sameTopics {b b' : Broker} (h : SameTopics b b') (n : Nat) :
    b'.deeper n = b.deeper n := by
  have hnames : b'.names = b.names := by
    ext t
    rw [mem_names, mem_names, ← isSome_optionsOf, h t, isSome_optionsOf]
  rw [deeper, hnames, deeper]

theorem card_deeper_le (b : Broker) (n : Nat) : (b.deeper n).card ≤ b.topics.size :=
  Nat.le_trans (Finset.card_filter_le _ _) (card_names_le b)

/-- One topic fewer lies ahead at the next name of the chain. -/
theorem card_deeper_deadLetterTopic_lt {b : Broker} {topic : Topic}
    (htopic : (b.find topic).isSome = true) :
    (b.deeper (deadLetterTopic topic).length).card < (b.deeper topic.length).card := by
  have hlength := length_lt_deadLetterTopic topic
  refine Finset.card_lt_card ⟨fun t ht => ?_, fun hsub => ?_⟩
  · rw [deeper, Finset.mem_filter] at ht ⊢
    exact ⟨ht.1, by omega⟩
  · have hself : topic ∈ b.deeper topic.length := by
      rw [deeper, Finset.mem_filter, mem_names]
      exact ⟨htopic, Nat.le_refl _⟩
    have hdeep := hsub hself
    rw [deeper, Finset.mem_filter] at hdeep
    omega

/-- Every topic with a limit that is stored with `deadLetter = true` has its forensic
destination.  A topic that a send created has no limit. -/
def Backed (b : Broker) : Prop :=
  ∀ t options, b.optionsOf t = some options → options.deadLetter = true → 0 < options.maxLength →
    (b.find (deadLetterTopic t)).isSome = true

theorem Backed.of_sameTopics {b b' : Broker} (h : Backed b) (hsame : SameTopics b b') :
    Backed b' := by
  intro t options hoptions hdead hlimit
  rw [hsame t] at hoptions
  exact hsame.extends.isSome (h t options hoptions hdead hlimit)

theorem Provisioned.backed {b : Broker} (h : Provisioned b) : Backed b :=
  fun t options hoptions hdead _ => h t options hoptions hdead

/-- A full topic that dead-letters finds its forensic destination. -/
theorem Backed.find {b : Broker} (h : Backed b) {topic : Topic} {state : TopicState}
    (hfind : b.find topic = some state) (hfull : state.full = true)
    (hdead : state.options.deadLetter = true) :
    ∃ forensic, b.find (deadLetterTopic topic) = some forensic := by
  have hlimit : 0 < state.options.maxLength := by
    simp only [TopicState.full, Bool.and_eq_true, decide_eq_true_eq] at hfull
    exact hfull.1
  exact Option.isSome_iff_exists.mp (h topic _ (optionsOf_of_find hfind) hdead hlimit)

/-- `enqueue` returns when its topic exists and few enough topics lie ahead. -/
def EnqueueReturns (fuel : Nat) (enqueue : Topic → Held → Exec Exn Broker Bool) : Prop :=
  ∀ (topic : Topic) (message : Held) (b : Broker), Backed b →
    (b.find topic).isSome = true → (b.deeper topic.length).card ≤ fuel →
      ∃ stored, (enqueue topic message b).1 = .ok stored

theorem deadLetterVia_returns {fuel : Nat} {enqueue : Topic → Held → Exec Exn Broker Bool}
    (henqueue : EnqueueReturns fuel enqueue) {b : Broker} (hbacked : Backed b) (source : Topic)
    (hready : b.deadLetters source = true →
      ∃ forensic, b.find (deadLetterTopic source) = some forensic)
    (hfuel : (b.deeper (deadLetterTopic source).length).card ≤ fuel) (message : Held) :
    (deadLetterVia enqueue source message b).1 = .ok () := by
  cases hdead : b.deadLetters source with
  | false => rw [deadLetterVia_closed hdead]
  | true =>
      obtain ⟨forensic, hforensic⟩ := hready hdead
      have hsame : SameTopics b (b.deadLettered source message) := .of_find fun _ => rfl
      obtain ⟨stored, hstored⟩ := henqueue (deadLetterTopic source) (b.renumbered message)
        (b.deadLettered source message) (hbacked.of_sameTopics hsame)
        (by rw [find_deadLettered, hforensic, Option.isSome_some])
        (by rw [deeper_of_sameTopics hsame]; exact hfuel)
      rw [deadLetterVia_forward hdead hforensic, hstored]
      rfl

theorem enqueueLocked_returns (fuel : Nat) : EnqueueReturns fuel (enqueueLocked fuel) := by
  induction fuel with
  | zero =>
      intro topic message b hbacked htopic hfuel
      have hlt := card_deeper_deadLetterTopic_lt htopic
      omega
  | succ fuel ih =>
      intro topic message b hbacked htopic hfuel
      have hnext : (b.deeper (deadLetterTopic topic).length).card ≤ fuel := by
        have hlt := card_deeper_deadLetterTopic_lt htopic
        omega
      obtain ⟨state, hfind⟩ := Option.isSome_iff_exists.mp htopic
      cases hfull : state.full with
      | false => exact ⟨true, by rw [enqueueLocked_room hfind hfull]⟩
      | true =>
          cases hpolicy : state.options.overflow with
          | rejectPublish =>
              exact ⟨false, by rw [enqueueLocked_refused hfind hfull (.inl hpolicy)]⟩
          | rejectPublishDlx =>
              cases hdead : state.options.deadLetter with
              | false =>
                  exact ⟨false, by rw [enqueueLocked_refused hfind hfull (.inr ⟨hpolicy, hdead⟩)]⟩
              | true =>
                  rw [enqueueLocked_dlx hfind hfull hpolicy hdead,
                    deadLetterVia_returns ih hbacked topic
                      (fun _ => hbacked.find hfind hfull hdead) hnext message]
                  exact ⟨false, rfl⟩
          | dropHead =>
              obtain ⟨evicted, rest, hmessages⟩ :=
                List.exists_cons_of_ne_nil (messages_ne_nil_of_full hfull)
              rw [enqueueLocked_dropHead hfind hfull hpolicy hmessages]
              have hsame := sameTopics_write hfind rest
              cases hdead : state.options.deadLetter with
              | false => exact ⟨true, rfl⟩
              | true =>
                  obtain ⟨forensic, hforensic⟩ := hbacked.find hfind hfull hdead
                  have hfound := hsame.extends.isSome (by rw [hforensic, Option.isSome_some])
                  have hreturns := deadLetterVia_returns ih (hbacked.of_sameTopics hsame) topic
                    (fun _ => Option.isSome_iff_exists.mp hfound)
                    (by rw [deeper_of_sameTopics hsame]; exact hnext) evicted
                  rw [if_pos rfl]
                  rcases hrun : deadLetterVia (enqueueLocked fuel) topic evicted
                    (b.write topic { state with messages := rest }) with ⟨r, c⟩
                  rw [hrun] at hreturns
                  obtain rfl : r = .ok () := hreturns
                  exact ⟨true, rfl⟩

/-- When `deadLetterLocked` returns: its topic does not dead-letter, or the forensic
destination is there. -/
theorem deadLetterLocked_eq_ok_iff {b : Broker} (hbacked : Backed b) (source : Topic)
    (message : Held) : (deadLetterLocked source message b).1 = .ok () ↔
      (b.deadLetters source = true → (b.find (deadLetterTopic source)).isSome = true) := by
  constructor
  · intro hreturns hdead
    cases hforensic : b.find (deadLetterTopic source) with
    | some forensic => rfl
    | none =>
        rw [deadLetterLocked, Exec.get_bind, deadLetterVia_missing hdead hforensic] at hreturns
        exact absurd hreturns (by simp)
  · intro hready
    exact deadLetterVia_returns (enqueueLocked_returns _) hbacked source
      (fun hdead => Option.isSome_iff_exists.mp (hready hdead)) (card_deeper_le b _) message

/-- `deadLetterLocked` does not throw when the topics are provisioned. -/
theorem deadLetterLocked_returns {b : Broker} (hprov : Provisioned b) (source : Topic)
    (message : Held) : (deadLetterLocked source message b).1 = .ok () :=
  (deadLetterLocked_eq_ok_iff hprov.backed source message).mpr fun hdead =>
    Option.isSome_iff_exists.mpr (hprov.find hdead)

theorem offer_returns {b : Broker} (hprov : Provisioned b) {topic : Topic}
    (htopic : (b.find topic).isSome = true) (body : Bytes) :
    ∃ stored, (offer topic body b).1 = .ok stored :=
  enqueueLocked_returns b.topics.size topic (b.fresh body) (b.offered topic body)
    (hprov.backed.of_sameTopics (.of_find fun _ => rfl)) htopic
    (card_deeper_le (b.offered topic body) _)

theorem offerAll_returns {group : String} {routing : Routing} {key : String} {body : Bytes}
    (names : List Topic) {b : Broker} (hprov : Provisioned b)
    (hnames : ∀ name ∈ names, (b.find name).isSome = true) (accepted : Bool) :
    ∃ result, (offerAll group routing key body names accepted b).1 = .ok result := by
  induction names generalizing b accepted with
  | nil => exact ⟨accepted, rfl⟩
  | cons name rest ih =>
      have hrest : ∀ name ∈ rest, (b.find name).isSome = true :=
        fun name hname => hnames name (List.mem_cons_of_mem _ hname)
      simp only [offerAll, Exec.get_bind]
      split
      · have hname := hnames name List.mem_cons_self
        have hsame := sameTopics_of_evolves (offer_evolves hname body)
        obtain ⟨stored, hstored⟩ := offer_returns hprov hname body
        rw [Exec.bind_apply]
        rcases hrun : offer name body b with ⟨r, c⟩
        rw [hrun] at hsame hstored
        obtain rfl : r = .ok stored := hstored
        exact ih (hprov.of_sameTopics hsame)
          (fun name hname => hsame.extends.isSome (hrest name hname)) _
      · exact ih hprov hrest accepted

/-- Publishing to a declared topic does not throw when the topics are provisioned. -/
theorem publish_returns {b : Broker} (hprov : Provisioned b) {topic : Topic}
    (htopic : (b.find topic).isSome = true) (body : Bytes) (route : String) :
    ∃ accepted, (publish topic body route b).1 = .ok accepted := by
  have hsame : SameTopics b (b.opened topic) := by
    intro t
    rw [optionsOf, find_opened]
    split
    · next heq =>
        subst heq
        obtain ⟨state, hfind⟩ := Option.isSome_iff_exists.mp htopic
        rw [hfind, optionsOf_of_find hfind, Option.getD_some, Option.map_some]
    · rfl
  have hprov' := hprov.of_sameTopics hsame
  simp only [publish, Exec.get_bind]
  split
  · next hgroup =>
      rw [opened, if_pos hgroup] at hprov' hsame
      rw [Exec.set_bind]
      exact offer_returns hprov' (hsame.extends.isSome htopic) body
  · next hgroup =>
      rw [opened, if_neg hgroup] at hprov'
      rw [Exec.set_bind]
      refine offerAll_returns _ hprov' (fun name hname => ?_) true
      exact (mem_keys_iff b name).mp hname

/-- A rejected message goes to the back of a forensic destination that has room. -/
theorem deadLetter_of_room {b : Broker} {source : Topic} {forensic : TopicState}
    (hdead : b.deadLetters source = true)
    (hforensic : b.find (deadLetterTopic source) = some forensic)
    (hroom : forensic.full = false) (message : Held) :
    (deadLetter source message b).2 =
      (b.deadLettered source message).pushBack (deadLetterTopic source) (b.renumbered message) := by
  obtain ⟨fuel, hfuel⟩ := exists_fuel (b := b) (by rw [hforensic, Option.isSome_some])
  have hforensic' : (b.deadLettered source message).find (deadLetterTopic source) =
      some forensic := hforensic
  rw [deadLetter, deadLetterLocked, Exec.get_bind, hfuel, deadLetterVia_forward hdead hforensic,
    enqueueLocked_room hforensic' hroom]

end Broker

/-! ## Runs -/

namespace System

open Broker (Provisioned Backed)

/-- A second half of `ensureTopic` that is still to come finds its forensic destination. -/
def DeclarationsReady (s : System) : Prop :=
  ∀ t ∈ s.transports, ∀ topic options, t.declaring = some (topic, options) →
    options.deadLetter = true → (s.broker.find (deadLetterTopic topic)).isSome = true

/-- An action that rejects a message: its handler returns `Reject`, or `settle` is
called with it. -/
inductive Rejects (s : System) (i : Nat) (t : InMemoryTransport) (message : Held) :
    Action → Prop where
  | handler (hlookup : s.transports[i]? = some t) (hcallable : t.callable = true)
      (hmessage : t.handling = some message) : Rejects s i t message (.handlerReturns i (.returned .reject))
  | settle (tag : Nat) (hlookup : s.transports[i]? = some t) (hcallable : t.callable = true)
      (hconnected : t.connected = true) (hmessage : t.outstanding[tag]? = some message) :
      Rejects s i t message (.settle i tag .reject)

/-- The copy `message` waits at `topic`. -/
def Waits (s : System) (topic : Topic) (message : Held) : Prop :=
  ∃ state, s.broker.find topic = some state ∧
    ∃ m ∈ state.messages, m.copy = message.copy ∧ m.body = message.body

/-- Dead-lettering works: it throws neither on its own nor from a publish, and a
rejected message ends in the forensic destination of its topic when that has room. -/
structure DeadLettersSafely (s : System) : Prop where
  returns : ∀ source message, (Broker.deadLetterLocked source message s.broker).1 = .ok ()
  publishes : ∀ topic body route, (s.broker.find topic).isSome = true →
    ∃ accepted, (Broker.publish topic body route s.broker).1 = .ok accepted
  preserves : ∀ i t message a, Rejects s i t message a → s.broker.deadLetters t.topic = true →
    ∃ forensic, s.broker.find (deadLetterTopic t.topic) = some forensic ∧
      (forensic.full = false → Waits (s.step a) (deadLetterTopic t.topic) message)

/-- A send that reaches the broker names a topic that exists, or at least one whose
forensic destination exists. -/
def SendsDeclared (s : System) : Action → Prop
  | .send i topic _ options => ∀ t, s.transports[i]? = some t → t.publishes options = true →
      (s.broker.find topic).isSome = true ∨ (s.broker.find (deadLetterTopic topic)).isSome = true
  | _ => True

/-! ### What one action keeps -/

theorem declarationsReady_init : DeclarationsReady machine.init :=
  fun _ h => absurd h (by simp [machine])

theorem DeclarationsReady.step {s : System} (h : DeclarationsReady s) (hstanding : Standing s)
    (a : Action) : DeclarationsReady (s.step a) := by
  have hextends := hstanding.extends a
  have heffect := step_effect s a
  generalize s.step a = s' at hextends heffect ⊢
  cases heffect with
  | nothing hback => exact h
  | created haction =>
      intro t ht topic options hdeclaring hdead
      rcases List.mem_append.mp ht with ht | ht
      · exact h t ht topic options hdeclaring hdead
      · rw [List.mem_singleton.mp ht] at hdeclaring
        exact absurd hdeclaring (by simp)
  | @site i t t' b' haction hlookup hsite =>
      intro u hu topic options hdeclaring hdead
      have hold : ∀ v ∈ s.transports, v.declaring = some (topic, options) →
          (b'.find (deadLetterTopic topic)).isSome = true :=
        fun v hv hd => hextends.isSome (h v hv topic options hd hdead)
      rcases List.mem_or_eq_of_mem_set hu with hu | rfl
      · exact hold u hu hdeclaring
      · have ht : t ∈ s.transports := List.mem_of_getElem? hlookup
        have hkept : ∀ v : InMemoryTransport, v.Kept u → v.declaring = t.declaring →
            (b'.find (deadLetterTopic topic)).isSome = true := by
          intro v hkept hv
          rcases hkept.declaring _ hdeclaring with hd | hd
          · exact hold t ht (hv ▸ hd)
          · rw [hd] at hdead
            exact absurd hdead (by simp)
        cases hsite with
        | quiet hk => exact hkept t hk rfl
        | declaredForensic topic' options' hk hbegun =>
            rcases hbegun with hbegun | ⟨hbegun, hok⟩
            · exact hold t ht (hbegun ▸ hdeclaring)
            · rw [hbegun] at hdeclaring
              obtain ⟨rfl, rfl⟩ := Prod.mk.inj (Option.some.inj hdeclaring)
              exact Broker.isSome_ensureTopic hok
        | declared topic' options' hd hk => exact hkept t hk rfl
        | published topic' payload options' ha hp hk => exact hkept t hk rfl
        | subscribed topic' => exact hold t ht hdeclaring
        | purged topic' => exact hold t ht hdeclaring
        | delivered state message rest _ _ _ _ _ hk => exact hkept t hk rfl
        | handled message d _ _ hk => exact hkept t hk rfl
        | settled tag message d _ _ _ hk => exact hkept t hk rfl
        | left _ _ _ _ _ hd => exact hold t ht (hd ▸ hdeclaring)

/-- A declaration keeps the forensic destinations of a kind of topics in place when the
one it needs is already there. -/
theorem forensic_ensureTopic {kind : TopicOptions → Prop} {b : Broker}
    (h : ∀ t stored, b.optionsOf t = some stored → kind stored →
      (b.find (deadLetterTopic t)).isSome = true) (topic : Topic) (options : TopicOptions)
    (hready : kind options → (b.find (deadLetterTopic topic)).isSome = true) {t : Topic}
    {stored : TopicOptions}
    (hstored : (Broker.ensureTopic topic options b).2.optionsOf t = some stored)
    (hkind : kind stored) :
    ((Broker.ensureTopic topic options b).2.find (deadLetterTopic t)).isSome = true := by
  have hextends := Broker.extends_ensureTopic topic options b
  rcases Broker.optionsOf_ensureTopic topic options b t with hsame | ⟨rfl, -, hnew⟩
  · rw [hsame] at hstored
    exact hextends.isSome (h t stored hstored hkind)
  · obtain rfl := Option.some.inj (hnew.symm.trans hstored)
    exact hextends.isSome (hready hkind)

theorem provisioned_ensureTopic {b : Broker} (h : Provisioned b) (topic : Topic)
    (options : TopicOptions)
    (hready : options.deadLetter = true → (b.find (deadLetterTopic topic)).isSome = true) :
    Provisioned (Broker.ensureTopic topic options b).2 :=
  fun _ _ hstored hdead => forensic_ensureTopic h topic options hready hstored hdead

theorem backed_ensureTopic {b : Broker} (h : Backed b) (topic : Topic) (options : TopicOptions)
    (hready : options.deadLetter = true → (b.find (deadLetterTopic topic)).isSome = true) :
    Backed (Broker.ensureTopic topic options b).2 :=
  fun _ _ hstored hdead hlimit =>
    @forensic_ensureTopic (fun o => o.deadLetter = true ∧ 0 < o.maxLength) b
      (fun t stored ht hkind => h t stored ht hkind.1 hkind.2) topic options
      (fun hkind => hready hkind.1) _ _ hstored ⟨hdead, hlimit⟩

/-- A topic that a send creates has no limit. -/
theorem backed_publish {b : Broker} (h : Backed b) (topic : Topic) (body : Bytes)
    (route : String) : Backed (Broker.publish topic body route b).2 := by
  have hextends := Broker.extends_publish topic body route b
  intro t stored hstored hdead hlimit
  rw [Broker.optionsOf_publish] at hstored
  split at hstored
  · next heq =>
      subst heq
      cases hbefore : b.optionsOf topic with
      | none =>
          rw [hbefore, Option.getD_none] at hstored
          rw [← Option.some.inj hstored] at hlimit
          exact absurd hlimit (Nat.lt_irrefl 0)
      | some options =>
          rw [hbefore, Option.getD_some] at hstored
          obtain rfl := Option.some.inj hstored
          exact hextends.isSome (h topic options hbefore hdead hlimit)
  · exact hextends.isSome (h t stored hstored hdead hlimit)

theorem provisioned_publish_iff {b : Broker} (h : Provisioned b) (topic : Topic) (body : Bytes)
    (route : String) : Provisioned (Broker.publish topic body route b).2 ↔
      (b.find topic).isSome = true ∨ (b.find (deadLetterTopic topic)).isSome = true := by
  have hoptions := Broker.optionsOf_publish topic body route b
  have hforensic : ((Broker.publish topic body route b).2.find (deadLetterTopic topic)).isSome =
      (b.find (deadLetterTopic topic)).isSome := by
    rw [← Broker.isSome_optionsOf, hoptions, if_neg (deadLetterTopic_ne topic).symm,
      Broker.isSome_optionsOf]
  constructor
  · intro hafter
    cases hfind : b.find topic with
    | some state => exact .inl rfl
    | none =>
        have hnone : b.optionsOf topic = none := by
          rw [Broker.optionsOf, hfind, Option.map_none]
        have hnew := hoptions topic
        rw [if_pos rfl, hnone, Option.getD_none] at hnew
        exact .inr (hforensic ▸ hafter topic {} hnew rfl)
  · intro hdeclared t stored hstored hdead
    have hextends := Broker.extends_publish topic body route b
    rw [hoptions t] at hstored
    split at hstored
    · next heq =>
        subst heq
        rcases hdeclared with hfound | hfound
        · obtain ⟨state, hfind⟩ := Option.isSome_iff_exists.mp hfound
          have hbefore := Broker.optionsOf_of_find hfind
          rw [hbefore, Option.getD_some] at hstored
          rw [Option.some.inj hstored] at hbefore
          exact hextends.isSome (h topic stored hbefore hdead)
        · exact hextends.isSome hfound
    · exact hextends.isSome (h t stored hstored hdead)

theorem Standing.provisioned_step {s : System} (h : Standing s) (hready : DeclarationsReady s)
    (hprov : Provisioned s.broker) {a : Action} (hguard : SendsDeclared s a) :
    Provisioned (s.step a).broker := by
  have heffect := step_effect s a
  generalize s.step a = s' at heffect ⊢
  cases heffect with
  | nothing hback => exact hprov
  | created haction => exact hprov
  | @site i t t' b' haction hlookup hsite =>
      have ht : t ∈ s.transports := List.mem_of_getElem? hlookup
      rcases hsite.topics (h.anchored t ht) with
        hsame | ⟨topic, payload, options, rfl, hpub, rfl⟩ | ⟨topic, rfl⟩ | ⟨topic, options, hd, rfl⟩
      · exact hprov.of_sameTopics hsame
      · exact (provisioned_publish_iff hprov topic payload options.route).mpr
          (hguard t hlookup hpub)
      · exact provisioned_ensureTopic hprov _ _ fun hdead => absurd hdead Bool.false_ne_true
      · exact provisioned_ensureTopic hprov topic options (hready t ht topic options hd)

theorem Standing.backed_step {s : System} (h : Standing s) (hready : DeclarationsReady s)
    (hbacked : Backed s.broker) (a : Action) : Backed (s.step a).broker := by
  have heffect := step_effect s a
  generalize s.step a = s' at heffect ⊢
  cases heffect with
  | nothing hback => exact hbacked
  | created haction => exact hbacked
  | @site i t t' b' haction hlookup hsite =>
      have ht : t ∈ s.transports := List.mem_of_getElem? hlookup
      rcases hsite.topics (h.anchored t ht) with
        hsame | ⟨topic, payload, options, -, -, rfl⟩ | ⟨topic, rfl⟩ | ⟨topic, options, hd, rfl⟩
      · exact hbacked.of_sameTopics hsame
      · exact backed_publish hbacked topic payload options.route
      · exact backed_ensureTopic hbacked _ _ fun hdead => absurd hdead Bool.false_ne_true
      · exact backed_ensureTopic hbacked topic options (hready t ht topic options hd)

theorem backed_init : Backed machine.init.broker :=
  fun t options hoptions => absurd hoptions (by simp [machine, Broker.optionsOf, Broker.find])

/-- In a provisioned broker dead-lettering works. -/
theorem deadLettersSafely_of_provisioned {s : System} (hprov : Provisioned s.broker) :
    DeadLettersSafely s := by
  refine ⟨fun source message => Broker.deadLetterLocked_returns hprov source message,
    fun topic body route htopic => Broker.publish_returns hprov htopic body route,
    fun i t message a hrejects hdead => ?_⟩
  obtain ⟨forensic, hforensic⟩ := hprov.find hdead
  refine ⟨forensic, hforensic, fun hroom => ?_⟩
  -- the message is pushed to the forensic destination once its entry is logged
  have hwaits : ∀ (entry : Entry) (transports : List InMemoryTransport),
      Waits ⟨(s.broker.log entry).performed t.topic message .reject, transports⟩
        (deadLetterTopic t.topic) message := by
    intro entry transports
    have hafter := Broker.deadLetter_of_room (b := s.broker.log entry) hdead hforensic hroom message
    rw [Waits, Broker.performed, hafter, Broker.find_pushBack, if_pos rfl]
    exact ⟨_, rfl, (s.broker.log entry).renumbered message,
      List.mem_append_right _ (List.mem_singleton_self _), rfl, rfl⟩
  cases hrejects with
  | handler hlookup hcallable hmessage =>
      obtain ⟨stats, hrun⟩ := endPump_final i s.broker t
        (d := .reject) (by simp) hmessage
      simp only [System.step]
      rw [call_of_may _ hlookup hcallable, hrun]
      exact hwaits _ _
  | settle tag hlookup hcallable hconnected hmessage =>
      obtain ⟨stats, hrun⟩ := settle_final i s.broker t
        (d := .reject) (by simp) hconnected hmessage
      simp only [System.step]
      rw [call_of_may _ hlookup hcallable, hrun]
      exact hwaits _ _

/-- The runs in whose every state the forensic destinations are there and
dead-lettering works are exactly those in which no send creates a topic that has
no forensic destination. -/
theorem provisioned_iff_sendsDeclared (actions : List Action) :
    machine.Always (fun s => Provisioned s.broker ∧ DeadLettersSafely s) actions ↔
      machine.Guarded SendsDeclared actions := by
  have hinit : Provisioned machine.init.broker := by
    intro t options hoptions
    exact absurd hoptions (by simp [machine, Broker.optionsOf, Broker.find])
  have hneed : ∀ s a, Standing s ∧ DeclarationsReady s → Provisioned s.broker →
      Provisioned (s.step a).broker → SendsDeclared s a := by
    intro s a _ hprov hafter
    cases a with
    | send i topic payload options =>
        intro t hlookup hpublishes
        obtain ⟨stats, hrun⟩ := send_apply i s.broker t hpublishes topic payload
        have hcallable : t.callable = true := by
          simp only [InMemoryTransport.publishes, Bool.and_eq_true] at hpublishes
          exact hpublishes.1.1
        simp only [System.step] at hafter
        rw [call_of_may _ hlookup hcallable, hrun] at hafter
        exact (provisioned_publish_iff hprov topic payload options.route).mp hafter
    | _ => trivial
  have hiff := Machine.alwaysFrom_iff_guardedFrom (m := machine)
    (J := fun s => Standing s ∧ DeclarationsReady s) (P := fun s => Provisioned s.broker)
    (G := SendsDeclared) (fun s a h => ⟨h.1.step a, h.2.step h.1 a⟩)
    (fun s a h hprov hguard => h.1.provisioned_step h.2 hprov hguard) hneed actions
    ⟨standing_init, declarationsReady_init⟩ hinit
  rw [Machine.Guarded, ← hiff]
  exact ⟨fun h => h.mono fun s hs => hs.1,
    fun h => h.mono fun s hs => ⟨hs, deadLettersSafely_of_provisioned hs⟩⟩

/-- A worker publishes to and consumes from a topic nobody declared. -/
def undeclaredRun : List Action :=
  [.create, .connect 0, .send 0 "jobs" [1] { durable := false }, .subscribe 0 "jobs" true, .pump 0]

/-- The message it then rejects is in no topic and held by no transport. -/
theorem undeclaredRun_loses :
    ¬ machine.Always (fun s => Provisioned s.broker ∧ DeadLettersSafely s) undeclaredRun ∧
      ((machine.run undeclaredRun).transports.map (·.handling)) =
        [some { sequence := 1, body := [1], copy := 1 }] ∧
      (let after := machine.run (undeclaredRun ++ [.handlerReturns 0 (.returned .reject)])
       after.broker.topics.toList.map (fun entry => entry.2.messages) = [[]] ∧
         after.transports.map (fun t => t.outstanding.toList) = [[]]) := by
  refine ⟨fun h => ?_, by decide, by decide, by decide⟩
  have hforensic := h.last.1 "jobs" {} (by decide) rfl
  exact absurd hforensic (by decide)

end System

end Motus.InMemory
