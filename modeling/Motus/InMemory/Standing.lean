import Motus.Foundation.Gather
import Motus.InMemory.Effect

set_option autoImplicit false

/-!
# What every action keeps

Facts that hold in every state of every run and that the particular results rest
on: topics never disappear and keep their options, a transport holds at most one
unresolved delivery, and the topic of a transport that holds one exists.

They are one invariant, kept by every action without a condition, and each is stated for
the single call first.
-/

namespace Motus.InMemory

open Motus.Foundation Motus.Transport

/-! ## Topics stay, with their options -/

namespace Broker

/-- The options a topic was stored with. -/
def optionsOf (b : Broker) (topic : Topic) : Option TopicOptions :=
  (b.find topic).map (·.options)

theorem optionsOf_of_find {b : Broker} {topic : Topic} {state : TopicState}
    (h : b.find topic = some state) : b.optionsOf topic = some state.options := by
  rw [optionsOf, h, Option.map_some]

theorem isSome_optionsOf (b : Broker) (topic : Topic) :
    (b.optionsOf topic).isSome = (b.find topic).isSome := Option.isSome_map

/-- The same topics exist, with the same options. -/
def SameTopics (b b' : Broker) : Prop := ∀ t, b'.optionsOf t = b.optionsOf t

/-- Every topic is still there, with the options it had. -/
def Extends (b b' : Broker) : Prop :=
  ∀ t options, b.optionsOf t = some options → b'.optionsOf t = some options

theorem Extends.refl (b : Broker) : Extends b b := fun _ _ h => h

theorem SameTopics.refl (b : Broker) : SameTopics b b := fun _ => rfl

theorem SameTopics.trans {b b' b'' : Broker} (h : SameTopics b b') (h' : SameTopics b' b'') :
    SameTopics b b'' := fun t => (h' t).trans (h t)

theorem SameTopics.extends {b b' : Broker} (h : SameTopics b b') : Extends b b' :=
  fun t _ ht => (h t).trans ht

theorem SameTopics.of_find {b b' : Broker} (h : ∀ t, b'.find t = b.find t) : SameTopics b b' :=
  fun t => by rw [optionsOf, h, optionsOf]

theorem Extends.isSome {b b' : Broker} (h : Extends b b') {t : Topic}
    (ht : (b.find t).isSome = true) : (b'.find t).isSome = true := by
  rw [← isSome_optionsOf] at ht ⊢
  obtain ⟨options, hoptions⟩ := Option.isSome_iff_exists.mp ht
  rw [h t options hoptions, Option.isSome_some]

theorem sameTopics_of_evolves {lo : Nat} {b b' : Broker} (h : Evolves lo b b') :
    SameTopics b b' := by
  intro t
  cases hfind : b.find t with
  | none => rw [optionsOf, optionsOf, h.absent t hfind, hfind]
  | some state =>
      obtain ⟨state', hfind', hadvance⟩ := h.present t state hfind
      rw [optionsOf_of_find hfind', optionsOf_of_find hfind, hadvance.options]

/-- Rewriting the messages of a topic that exists. -/
theorem sameTopics_write {b : Broker} {topic : Topic} {state : TopicState}
    (hfind : b.find topic = some state) (messages : List Held) :
    SameTopics b (b.write topic { state with messages := messages }) := by
  intro t
  by_cases heq : topic = t
  · subst heq
    rw [optionsOf_of_find (find_write_self _ _ _), optionsOf_of_find hfind]
  · rw [optionsOf, find_write_of_ne _ heq, optionsOf]

theorem pushFront_of_find {b : Broker} {topic : Topic} {state : TopicState}
    (hfind : b.find topic = some state) (message : Held) :
    b.pushFront topic message =
      b.write topic { state with messages := message :: state.messages } := by
  rw [pushFront, hfind, Option.getD_some]

theorem sameTopics_pushFront {b : Broker} {topic : Topic} (htopic : (b.find topic).isSome = true)
    (message : Held) : SameTopics b (b.pushFront topic message) := by
  obtain ⟨state, hfind⟩ := Option.isSome_iff_exists.mp htopic
  rw [pushFront_of_find hfind]
  exact sameTopics_write hfind _

theorem sameTopics_putBackAll {b : Broker} {topic : Topic}
    (htopic : (b.find topic).isSome = true) (i : Nat) (messages : List Held) :
    SameTopics b (b.putBackAll i topic messages) := by
  induction messages with
  | nil => exact .refl b
  | cons message rest ih =>
      exact ih.trans (sameTopics_pushFront (ih.extends.isSome htopic) _)

theorem sameTopics_performed {b : Broker} {topic : Topic}
    (htopic : (b.find topic).isSome = true) (message : Held) (d : Disposition) :
    SameTopics b (b.performed topic message d) := by
  cases d with
  | ack => exact .of_find fun t => rfl
  | requeue => exact sameTopics_pushFront htopic _
  | deferred => exact .refl b
  | reject =>
      exact sameTopics_of_evolves
        (deadLetterVia_evolves (enqueueLocked_evolves _) topic message b).1

theorem sameTopics_purge (b : Broker) (topic : Topic) : SameTopics b (purge topic b).2 := by
  simp only [purge, Exec.get_bind]
  cases hfind : b.find topic with
  | none => exact .refl b
  | some state => exact (sameTopics_write hfind []).trans (.of_find fun t => rfl)

/-- `publish` adds the topic it is called with, if that does not exist. -/
theorem optionsOf_publish (topic : Topic) (body : Bytes) (route : String) (b : Broker)
    (t : Topic) : (publish topic body route b).2.optionsOf t =
      if topic = t then some ((b.optionsOf topic).getD {}) else b.optionsOf t := by
  rw [sameTopics_of_evolves (publish_evolves topic body route b) t, optionsOf, find_opened]
  split
  · cases hfind : b.find topic <;> simp [optionsOf, hfind]
  · rfl

theorem extends_publish (topic : Topic) (body : Bytes) (route : String) (b : Broker) :
    Extends b (publish topic body route b).2 := by
  intro t options ht
  rw [optionsOf_publish]
  split
  · next heq =>
      subst heq
      rw [ht, Option.getD_some]
  · exact ht

/-! ### `ensureTopic` -/

/-- The entry that `ensureTopic` creates. -/
def declared (topic : Topic) (options : TopicOptions) : TopicState :=
  { options := options, binding := if options.route = "" then topic else options.route }

/-- `ensureGroup` writes to the groups only. -/
theorem ensureGroup_apply (options : TopicOptions) (b : Broker) :
    ∃ r groups, ensureGroup options b = (r, { b with groups := groups }) := by
  simp only [ensureGroup, Exec.get_bind]
  split
  · exact ⟨_, b.groups, rfl⟩
  · cases b.groups[options.group]? with
    | none => exact ⟨_, _, rfl⟩
    | some routing =>
        simp only
        split
        · exact ⟨_, b.groups, rfl⟩
        · exact ⟨_, b.groups, rfl⟩

/-- A declaration creates the topic, finds it there, or is refused. -/
theorem ensureTopic_apply (topic : Topic) (options : TopicOptions) (b : Broker) :
    ∃ groups, (ensureTopic topic options b).2 = { b with groups := groups } ∧
        ((ensureTopic topic options b).1 = .ok () → (b.find topic).isSome = true) ∨
      b.find topic = none ∧ ensureTopic topic options b =
        (.ok (), { b with groups := groups }.write topic (declared topic options)) := by
  obtain ⟨r, groups, hgroup⟩ := ensureGroup_apply options b
  refine ⟨groups, ?_⟩
  rw [ensureTopic, Exec.bind_apply, hgroup]
  cases r with
  | error e => exact .inl ⟨rfl, by simp⟩
  | ok =>
      have hsame : Broker.find { b with groups := groups } topic = b.find topic := rfl
      simp only [Exec.get_bind, hsame]
      cases hfind : b.find topic with
      | none => exact .inr ⟨rfl, rfl⟩
      | some existing =>
          refine .inl ⟨?_, fun _ => rfl⟩
          simp only
          split <;> rfl

theorem optionsOf_ensureTopic (topic : Topic) (options : TopicOptions) (b : Broker) (t : Topic) :
    (ensureTopic topic options b).2.optionsOf t = b.optionsOf t ∨
      topic = t ∧ b.optionsOf t = none ∧
        (ensureTopic topic options b).2.optionsOf t = some options := by
  obtain ⟨groups, ⟨hsame, -⟩ | ⟨hnone, hnew⟩⟩ := ensureTopic_apply topic options b
  · rw [hsame]
    exact .inl rfl
  · by_cases heq : topic = t
    · subst heq
      refine .inr ⟨rfl, by rw [optionsOf, hnone, Option.map_none], ?_⟩
      rw [hnew, optionsOf_of_find (find_write_self _ _ _)]
      rfl
    · rw [hnew, optionsOf, find_write_of_ne _ heq]
      exact .inl rfl

theorem extends_ensureTopic (topic : Topic) (options : TopicOptions) (b : Broker) :
    Extends b (ensureTopic topic options b).2 := by
  intro t stored ht
  rcases optionsOf_ensureTopic topic options b t with hsame | ⟨-, hnone, -⟩
  · rw [hsame, ht]
  · rw [hnone] at ht
    exact absurd ht (by simp)

/-- After a declaration that was accepted the topic exists. -/
theorem isSome_ensureTopic {topic : Topic} {options : TopicOptions} {b : Broker}
    (h : (ensureTopic topic options b).1 = .ok ()) :
    ((ensureTopic topic options b).2.find topic).isSome = true := by
  obtain ⟨groups, ⟨hsame, hfound⟩ | ⟨-, hnew⟩⟩ := ensureTopic_apply topic options b
  · rw [hsame]
    exact hfound h
  · rw [hnew, find_write_self, Option.isSome_some]

end Broker

/-! ## What a transport holds -/

namespace InMemoryTransport

/-- The bookkeeping of a transport between any two calls. -/
structure Tidy (t : InMemoryTransport) : Prop where
  handler : t.handler = true → t.subscribed = true
  /-- a transport that is not subscribed holds nothing -/
  unsubscribed : t.subscribed = false → t.outstanding.isEmpty = true ∧ t.handling = none
  /-- at most one delivery is unresolved, and it is filed under its number -/
  sole : ∀ tag message, t.outstanding[tag]? = some message →
    t.outstanding.toList = [(tag, message)] ∧ message.sequence = tag
  /-- the delivery whose handler is running is the unresolved one, if there is one -/
  handling : ∀ message, t.handling = some message →
    t.outstanding.isEmpty = true ∨ t.outstanding[message.sequence]? = some message

/-- The transport holds a delivery or is running its handler. -/
def busy (t : InMemoryTransport) : Prop :=
  t.outstanding.isEmpty = false ∨ t.handling.isSome = true

section Outstanding

variable {o : Std.TreeMap Nat Held}

theorem getElem?_of_isEmpty (h : o.isEmpty = true) (tag : Nat) : o[tag]? = none := by
  rw [Std.TreeMap.getElem?_of_isEmpty h]

theorem isEmpty_of_getElem? {tag : Nat} {message : Held} (h : o[tag]? = some message) :
    o.isEmpty = false := by
  cases hempty : o.isEmpty with
  | false => rfl
  | true => rw [getElem?_of_isEmpty hempty] at h; exact absurd h (by simp)

/-- Filing a delivery when nothing else is unresolved. -/
theorem toList_insertIfNew_of_isEmpty (h : o.isEmpty = true) (tag : Nat) (message : Held) :
    (o.insertIfNew tag message).toList = [(tag, message)] := by
  have hnone : o[tag]? = none := getElem?_of_isEmpty h tag
  have hequiv : (o.insertIfNew tag message).Equiv (o.insert tag message) := by
    refine Std.TreeMap.Equiv.of_forall_constGet?_eq fun k => ?_
    rw [Std.TreeMap.getElem?_insertIfNew, Std.TreeMap.getElem?_insert]
    by_cases heq : compare tag k = .eq
    · have hk : tag = k := Std.LawfulEqOrd.eq_of_compare heq
      subst hk
      simp [Std.TreeMap.mem_iff_isSome_getElem?, hnone]
    · simp [heq]
  have hnil : o.toList = [] := by
    rw [← List.isEmpty_iff, Std.TreeMap.isEmpty_toList, h]
  have hperm := (Std.TreeMap.equiv_iff_toList_perm.mp hequiv).trans
    (toList_insert_perm_cons hnone message)
  rw [hnil] at hperm
  exact List.perm_singleton.mp hperm

/-- Crossing out the only unresolved delivery. -/
theorem isEmpty_erase_of_toList {tag : Nat} {message : Held} (h : o.toList = [(tag, message)]) :
    (o.erase tag).isEmpty = true := by
  have hfound : o[tag]? = some message := by
    rw [← Std.TreeMap.mem_toList_iff_getElem?_eq_some, h]
    exact List.mem_singleton_self _
  have hlength := (toList_perm_cons_erase hfound).length_eq
  rw [h, List.length_singleton, List.length_cons] at hlength
  rw [← Std.TreeMap.isEmpty_toList, List.isEmpty_iff, ← List.length_eq_zero_iff]
  omega

theorem isEmpty_erase_of_isEmpty (h : o.isEmpty = true) (tag : Nat) :
    (o.erase tag).isEmpty = true := by
  rw [Std.TreeMap.isEmpty_erase, h, Bool.true_or]

theorem getElem?_erase (o : Std.TreeMap Nat Held) (tag k : Nat) :
    (o.erase tag)[k]? = if k = tag then none else o[k]? := by
  rw [Std.TreeMap.getElem?_erase]
  simp only [Std.LawfulEqCmp.compare_eq_iff_eq, @eq_comm _ k tag]

theorem getElem?_insertIfNew_of_isEmpty (h : o.isEmpty = true) (tag k : Nat) (message : Held) :
    (o.insertIfNew tag message)[k]? = if k = tag then some message else none := by
  have hnone := getElem?_of_isEmpty h
  rw [Std.TreeMap.getElem?_insertIfNew, hnone k]
  simp [Std.TreeMap.mem_iff_isSome_getElem?, hnone, @eq_comm _ k tag]

end Outstanding

/-- What a transport that holds one delivery holds. -/
theorem Tidy.unresolved_of_getElem? {t : InMemoryTransport} (h : Tidy t) {tag : Nat}
    {message : Held} (hmessage : t.outstanding[tag]? = some message) :
    t.unresolved = [message] := by
  rw [unresolved, (h.sole tag message hmessage).1]
  rfl

/-- A transport holds nothing or one delivery. -/
theorem Tidy.unresolved_cases {t : InMemoryTransport} (h : Tidy t) :
    t.outstanding.isEmpty = true ∨
      ∃ message : Held, t.outstanding[message.sequence]? = some message := by
  cases hempty : t.outstanding.isEmpty with
  | true => exact .inl rfl
  | false =>
      obtain ⟨tag, hmem⟩ := Std.TreeMap.isEmpty_eq_false_iff_exists_mem.mp hempty
      obtain ⟨message, hmessage⟩ := Option.isSome_iff_exists.mp
        (Std.TreeMap.mem_iff_isSome_getElem?.mp hmem)
      exact .inr ⟨message, by rw [(h.sole tag message hmessage).2, hmessage]⟩

/-- Nothing is unresolved and no handler runs. -/
theorem Tidy.of_isEmpty {t : InMemoryTransport} (hhandler : t.handler = true → t.subscribed = true)
    (hempty : t.outstanding.isEmpty = true)
    (hhandling : t.subscribed = false → t.handling = none) : Tidy t :=
  ⟨hhandler, fun h => ⟨hempty, hhandling h⟩,
    fun tag message h => by rw [getElem?_of_isEmpty hempty] at h; exact absurd h (by simp),
    fun _ _ => .inl hempty⟩

end InMemoryTransport

open InMemoryTransport

/-- A transport that has not been used. -/
theorem tidy_initial : Tidy {} := .of_isEmpty (by simp) rfl (by simp)

/-- Crossing out a delivery leaves none. -/
theorem InMemoryTransport.Tidy.isEmpty_erase {t : InMemoryTransport} (h : Tidy t) {tag : Nat}
    {message : Held} (hmessage : t.outstanding[tag]? = some message) :
    (t.outstanding.erase tag).isEmpty = true :=
  isEmpty_erase_of_toList (h.sole tag message hmessage).1

theorem SiteEffect.tidy {i : Nat} {a : Action} {b b' : Broker} {t t' : InMemoryTransport}
    (heffect : SiteEffect i a b t b' t') (h : Tidy t) : Tidy t' := by
  -- nothing changes but which handler is running
  have hsame : ∀ u : InMemoryTransport, u.handler = t.handler → u.subscribed = t.subscribed →
      u.outstanding = t.outstanding → (u.handling = t.handling ∨ u.handling = none) → Tidy u := by
    intro u hhandler hsubscribed houtstanding hhandling
    refine ⟨?_, ?_, ?_, ?_⟩
    · rw [hhandler, hsubscribed]
      exact h.handler
    · rw [hsubscribed, houtstanding]
      intro hfree
      obtain ⟨hempty, hnone⟩ := h.unsubscribed hfree
      rcases hhandling with hhandling | hhandling
      · exact ⟨hempty, hhandling.trans hnone⟩
      · exact ⟨hempty, hhandling⟩
    · rw [houtstanding]
      exact h.sole
    · rw [houtstanding]
      rcases hhandling with hhandling | hhandling
      · rw [hhandling]
        exact h.handling
      · intro message hmessage
        rw [hhandling] at hmessage
        exact absurd hmessage (by simp)
  cases heffect with
  | quiet hkept houtstanding hhandling =>
      exact hsame _ hkept.handler hkept.subscribed houtstanding hhandling
  | declaredForensic topic options hkept hdeclaring houtstanding hhandling =>
      exact hsame _ hkept.handler hkept.subscribed houtstanding (.inl hhandling)
  | declared topic options hdeclaring hkept houtstanding hhandling =>
      exact hsame _ hkept.handler hkept.subscribed houtstanding (.inl hhandling)
  | published topic payload options haction hpublishes hkept houtstanding hhandling =>
      exact hsame _ hkept.handler hkept.subscribed houtstanding (.inl hhandling)
  | subscribed topic hfree =>
      exact .of_isEmpty (fun _ => rfl) (h.unsubscribed hfree).1 (by simp)
  | purged topic => exact h
  | delivered state message rest hhandler hempty hidle hfind hmessages hkept houtstanding
      hhandling =>
      have hsubscribed : t'.subscribed = true := by
        rw [hkept.subscribed]
        exact h.handler hhandler
      have hlist := toList_insertIfNew_of_isEmpty hempty message.sequence message
      have hget : ∀ tag m, t'.outstanding[tag]? = some m →
          tag = message.sequence ∧ m = message := by
        intro tag m hm
        rw [houtstanding, ← Std.TreeMap.mem_toList_iff_getElem?_eq_some, hlist,
          List.mem_singleton] at hm
        exact ⟨congrArg Prod.fst hm, congrArg Prod.snd hm⟩
      refine ⟨fun _ => hsubscribed, fun hfree => ?_, fun tag m hm => ?_, fun m hm => .inr ?_⟩
      · rw [hsubscribed] at hfree
        exact absurd hfree (by simp)
      · obtain ⟨rfl, rfl⟩ := hget tag m hm
        exact ⟨by rw [houtstanding, hlist], rfl⟩
      · rw [hhandling] at hm
        obtain rfl := Option.some.inj hm
        rw [houtstanding, ← Std.TreeMap.mem_toList_iff_getElem?_eq_some, hlist]
        exact List.mem_singleton_self _
  | handled message d hd hmessage hkept houtstanding hhandling =>
      refine .of_isEmpty ?_ ?_ fun _ => hhandling
      · rw [hkept.handler, hkept.subscribed]
        exact h.handler
      · rw [houtstanding]
        rcases h.handling message hmessage with hempty | hfound
        · exact isEmpty_erase_of_isEmpty hempty _
        · exact h.isEmpty_erase hfound
  | settled tag message d haction hd hmessage hkept houtstanding hhandling =>
      refine .of_isEmpty ?_ ?_ fun hfree => ?_
      · rw [hkept.handler, hkept.subscribed]
        exact h.handler
      · rw [houtstanding]
        exact h.isEmpty_erase hmessage
      · rw [hhandling]
        rw [hkept.subscribed] at hfree
        exact (h.unsubscribed hfree).2
  | left hidle houtstanding hhandling hsubscribed hhandler =>
      exact .of_isEmpty (by simp [hhandler]) houtstanding fun _ => hhandling

/-- A transport that holds a delivery after a call held one before, or has just
taken it, from a topic that exists. -/
theorem SiteEffect.busy {i : Nat} {a : Action} {b b' : Broker} {t t' : InMemoryTransport}
    (heffect : SiteEffect i a b t b' t') (h : Tidy t) (hbusy : t'.busy) :
    t'.topic = t.topic ∧ (t.busy ∨ (b.find t.topic).isSome = true) := by
  have hsame : ∀ u : InMemoryTransport, u.outstanding = t.outstanding →
      (u.handling = t.handling ∨ u.handling = none) → u.busy → t.busy := by
    intro u houtstanding hhandling hu
    rcases hu with hu | hu
    · exact .inl (by rw [← houtstanding, hu])
    · rcases hhandling with hhandling | hhandling
      · exact .inr (by rw [← hhandling, hu])
      · rw [hhandling] at hu
        exact absurd hu (by simp)
  cases heffect with
  | quiet hkept houtstanding hhandling =>
      exact ⟨hkept.topic, .inl (hsame t' houtstanding hhandling hbusy)⟩
  | declaredForensic topic options hkept hdeclaring houtstanding hhandling =>
      exact ⟨hkept.topic, .inl (hsame t' houtstanding (.inl hhandling) hbusy)⟩
  | declared topic options hdeclaring hkept houtstanding hhandling =>
      exact ⟨hkept.topic, .inl (hsame t' houtstanding (.inl hhandling) hbusy)⟩
  | published topic payload options haction hpublishes hkept houtstanding hhandling =>
      exact ⟨hkept.topic, .inl (hsame t' houtstanding (.inl hhandling) hbusy)⟩
  | subscribed topic hfree =>
      obtain ⟨hempty, hnone⟩ := h.unsubscribed hfree
      rcases hbusy with hbusy | hbusy
      · rw [hempty] at hbusy
        exact absurd hbusy (by simp)
      · rw [hnone] at hbusy
        exact absurd hbusy (by simp)
  | purged topic => exact ⟨rfl, .inl hbusy⟩
  | delivered state message rest hhandler hempty hidle hfind hmessages hkept houtstanding
      hhandling => exact ⟨hkept.topic, .inr (by rw [hfind, Option.isSome_some])⟩
  | handled message d hd hmessage hkept houtstanding hhandling =>
      exact ⟨hkept.topic, .inl (.inr (by rw [hmessage, Option.isSome_some]))⟩
  | settled tag message d haction hd hmessage hkept houtstanding hhandling =>
      exact ⟨hkept.topic, .inl (.inl (isEmpty_of_getElem? hmessage))⟩
  | left hidle houtstanding hhandling hsubscribed hhandler =>
      rcases hbusy with hbusy | hbusy
      · rw [houtstanding] at hbusy
        exact absurd hbusy (by simp)
      · rw [hhandling] at hbusy
        exact absurd hbusy (by simp)

/-- What a call does to the set of topics. -/
theorem SiteEffect.topics {i : Nat} {a : Action} {b b' : Broker} {t t' : InMemoryTransport}
    (heffect : SiteEffect i a b t b' t')
    (hanchored : t.busy → (b.find t.topic).isSome = true) :
    Broker.SameTopics b b' ∨
      (∃ topic payload options, a = .send i topic payload options ∧
        t.publishes options = true ∧ b' = (Broker.publish topic payload options.route b).2) ∨
      (∃ topic, b' =
        (Broker.ensureTopic (deadLetterTopic topic) (forensicTopicOptions topic) b).2) ∨
      (∃ topic options, t.declaring = some (topic, options) ∧
        b' = (Broker.ensureTopic topic options b).2) := by
  have hperformed : ∀ (entry : Entry) (message : Held) (d : Disposition), t.busy →
      Broker.SameTopics b ((b.log entry).performed t.topic message d) := by
    intro entry message d hbusy
    have hlog : Broker.SameTopics b (b.log entry) := .of_find fun _ => rfl
    exact hlog.trans (Broker.sameTopics_performed (hlog.extends.isSome (hanchored hbusy)) message d)
  cases heffect with
  | quiet => exact .inl (.refl b)
  | declaredForensic topic options => exact .inr (.inr (.inl ⟨topic, rfl⟩))
  | declared topic options hdeclaring => exact .inr (.inr (.inr ⟨topic, options, hdeclaring, rfl⟩))
  | published topic payload options haction hpublishes =>
      exact .inr (.inl ⟨topic, payload, options, haction, hpublishes, rfl⟩)
  | subscribed topic => exact .inl (.refl b)
  | purged topic => exact .inl (Broker.sameTopics_purge b topic)
  | delivered state message rest hhandler hempty hidle hfind =>
      exact .inl ((Broker.sameTopics_write hfind rest).trans (.of_find fun _ => rfl))
  | handled message d hd hmessage =>
      exact .inl (hperformed _ message d (.inr (by rw [hmessage, Option.isSome_some])))
  | settled tag message d haction hd hmessage =>
      exact .inl (hperformed _ message d (.inl (isEmpty_of_getElem? hmessage)))
  | left =>
      cases hempty : t.outstanding.isEmpty with
      | true =>
          rw [unresolved_of_isEmpty hempty]
          exact .inl (.refl b)
      | false => exact .inl (Broker.sameTopics_putBackAll (hanchored (.inl hempty)) i _)

theorem SiteEffect.extends {i : Nat} {a : Action} {b b' : Broker} {t t' : InMemoryTransport}
    (heffect : SiteEffect i a b t b' t')
    (hanchored : t.busy → (b.find t.topic).isSome = true) : Broker.Extends b b' := by
  rcases heffect.topics hanchored with
    hsame | ⟨topic, payload, options, -, -, rfl⟩ | ⟨topic, rfl⟩ | ⟨topic, options, -, rfl⟩
  · exact hsame.extends
  · exact Broker.extends_publish topic payload options.route b
  · exact Broker.extends_ensureTopic _ _ b
  · exact Broker.extends_ensureTopic topic options b

/-! ## The system -/

namespace System

/-- What holds between any two actions of any run. -/
structure Standing (s : System) : Prop where
  tidy : ∀ t ∈ s.transports, Tidy t
  /-- the topic of a transport that holds a delivery exists -/
  anchored : ∀ t ∈ s.transports, t.busy → (s.broker.find t.topic).isSome = true

theorem standing_init : Standing machine.init :=
  ⟨fun _ h => absurd h (by simp [machine]), fun _ h => absurd h (by simp [machine])⟩

theorem Standing.effect {s s' : System} {a : Action} (heffect : Effect s a s')
    (h : Standing s) : Standing s' ∧ Broker.Extends s.broker s'.broker := by
  cases heffect with
  | nothing hback => exact ⟨h, .refl _⟩
  | created haction =>
      refine ⟨⟨fun t ht => ?_, fun t ht hbusy => ?_⟩, .refl _⟩
      · rcases List.mem_append.mp ht with ht | ht
        · exact h.tidy t ht
        · rw [List.mem_singleton.mp ht]
          exact tidy_initial
      · rcases List.mem_append.mp ht with ht | ht
        · exact h.anchored t ht hbusy
        · rw [List.mem_singleton.mp ht] at hbusy
          exact absurd hbusy (by simp [busy])
  | @site i t t' b' haction hlookup hsite =>
      have ht : t ∈ s.transports := List.mem_of_getElem? hlookup
      have hextends := hsite.extends (h.anchored t ht)
      refine ⟨⟨fun u hu => ?_, fun u hu hbusy => ?_⟩, hextends⟩
      · rcases List.mem_or_eq_of_mem_set hu with hu | rfl
        · exact h.tidy u hu
        · exact hsite.tidy (h.tidy t ht)
      · rcases List.mem_or_eq_of_mem_set hu with hu | rfl
        · exact hextends.isSome (h.anchored u hu hbusy)
        · obtain ⟨htopic, hheld⟩ := hsite.busy (h.tidy t ht) hbusy
          rw [htopic]
          rcases hheld with hheld | hfound
          · exact hextends.isSome (h.anchored t ht hheld)
          · exact hextends.isSome hfound

theorem Standing.step {s : System} (h : Standing s) (a : Action) : Standing (s.step a) :=
  (h.effect (step_effect s a)).1

/-- Topics never disappear and keep their options. -/
theorem Standing.extends {s : System} (h : Standing s) (a : Action) :
    Broker.Extends s.broker (s.step a).broker :=
  (h.effect (step_effect s a)).2

/-- Every state of every run is a standing one. -/
theorem always_standing (actions : List Action) : machine.Always Standing actions :=
  .of_step actions (fun _ a h => h.step a) standing_init

end System

end Motus.InMemory
