import Motus.Foundation.Custody
import Motus.InMemory.Provision

set_option autoImplicit false

/-!
# The broker as a custody of copies

A copy is a message under the number it was first offered with; its sequence
number is the ticket.  `custody` reads the broker as a `Foundation.Custody` in
which the topics are the shelves, and each write of the broker is one move of it.

`Accounted` says that the custody is sound and that whatever has left for good had a
reason to: `Final` looks the reason up, in the options of the topic that gave it and, for
a refusal, in how many messages were waiting there when it was made.
-/

namespace Motus.InMemory

open Motus.Foundation Motus.Transport

namespace Held

/-- The copy that a message is. -/
def asCopy (m : Held) : Copy Bytes := (m.copy, m.body)

/-- The copy under the number it now has. -/
def ticketed (m : Held) : Ticketed Bytes := (m.sequence, m.asCopy)

end Held

namespace Broker

/-- Everything that waits in a topic. -/
def waiting (b : Broker) : Multiset Held :=
  gather (fun state => (state.messages : Multiset Held)) b.topics

/-- The copies `publish` has numbered. -/
def offers (b : Broker) : List Held :=
  b.journal.filterMap fun
    | .offered _ message => some message
    | _ => none

/-- The messages that have been pushed to the back of a topic. -/
def stores (b : Broker) : List Held :=
  b.journal.filterMap fun
    | .stored _ message => some message
    | _ => none

/-- The messages that have left for good, and how. -/
def closures (b : Broker) : List (Held × Fate) :=
  b.journal.filterMap fun
    | .closed message fate => some (message, fate)
    | _ => none

/-- The broker as a custody, with the messages in `hand` on their way. -/
def custody (b : Broker) (hand : Multiset Held) : Custody Bytes where
  counter := b.sequence
  issued := (b.offers.map Held.asCopy : List (Copy Bytes))
  shelved := b.waiting.map Held.ticketed
  inHand := hand.map Held.ticketed
  closed := (b.closures.map (·.1.asCopy) : List (Copy Bytes))

/-- A fate that accounts for a message: it was acknowledged or purged, its topic
does not dead-letter, or a forensic destination refused it at which as many messages were
waiting as its limit lets it hold. -/
def Final (b : Broker) : Fate → Prop
  | .acked | .purged => True
  | .rejected topic | .evicted topic =>
      ∃ options, b.optionsOf topic = some options ∧ options.deadLetter = false
  | .refused topic depth => (∃ source, topic = deadLetterTopic source) ∧
      ∃ options, b.optionsOf topic = some options ∧ 0 < options.maxLength ∧
        options.maxLength ≤ depth

/-- The fate is final, or the message is a copy that no topic ever stored and that
the topic it was published to refused. -/
def Lawful (b : Broker) (message : Held) (fate : Fate) : Prop :=
  b.Final fate ∨ message.copy ∉ b.stores.map (·.copy)

/-- Every copy is accounted for, the ones in `hand` included. -/
structure Accounted (b : Broker) (hand : Multiset Held) : Prop where
  sound : (b.custody hand).Sound
  stored : ∀ m ∈ b.stores, m.copy ∈ b.offers.map (·.copy)
  lawful : ∀ closure ∈ b.closures, b.Lawful closure.1 closure.2

/-! ## The writes -/

section Writes

variable {b : Broker} {hand : Multiset Held} {topic : Topic} {state : TopicState}

theorem offers_log (b : Broker) (entry : Entry) : (b.log entry).offers =
    b.offers ++ (match entry with | .offered _ message => [message] | _ => []) := by
  cases entry <;> simp [offers, log]

theorem stores_log (b : Broker) (entry : Entry) : (b.log entry).stores =
    b.stores ++ (match entry with | .stored _ message => [message] | _ => []) := by
  cases entry <;> simp [stores, log]

theorem closures_log (b : Broker) (entry : Entry) : (b.log entry).closures =
    b.closures ++ (match entry with | .closed message fate => [(message, fate)] | _ => []) := by
  cases entry <;> simp [closures, log]

theorem waiting_write (hfind : b.find topic = some state) :
    ∃ rest, b.waiting = state.messages + rest ∧
      ∀ state', (b.write topic state').waiting = state'.messages + rest :=
  ⟨_, gather_erase _ hfind, fun state' => gather_insert _ b.topics topic state'⟩

theorem coe_concat_eq_cons {β : Type} (l : List β) (x : β) :
    ((l ++ [x] : List β) : Multiset β) = x ::ₘ (l : Multiset β) := by
  rw [← Multiset.coe_add, Multiset.coe_singleton, ← Multiset.singleton_add, add_comm]

/-- A closure stays lawful when topics stay and no store of its copy is added. -/
theorem Lawful.mono {b' : Broker} {message : Held} {fate : Fate} (h : b.Lawful message fate)
    (hextends : Extends b b')
    (hstores : message.copy ∈ b'.stores.map (·.copy) → message.copy ∈ b.stores.map (·.copy)) :
    b'.Lawful message fate := by
  refine h.imp (fun hfinal => ?_) fun hnot hmem => hnot (hstores hmem)
  cases fate with
  | acked => trivial
  | purged => trivial
  | rejected t =>
      obtain ⟨options, hoptions, hdead⟩ := hfinal
      exact ⟨options, hextends t options hoptions, hdead⟩
  | evicted t =>
      obtain ⟨options, hoptions, hdead⟩ := hfinal
      exact ⟨options, hextends t options hoptions, hdead⟩
  | refused t depth =>
      obtain ⟨hforensic, options, hoptions, hfull⟩ := hfinal
      exact ⟨hforensic, options, hextends t options hoptions, hfull⟩

/-- A move that neither stores nor closes a copy. -/
theorem Accounted.of_sound {b' : Broker} {hand' : Multiset Held} (h : Accounted b hand)
    (hsound : (b'.custody hand').Sound) (hoffers : b.offers ⊆ b'.offers)
    (hstores : b'.stores = b.stores) (hclosures : b'.closures = b.closures)
    (hextends : Extends b b') : Accounted b' hand' := by
  refine ⟨hsound, fun m hm => ?_, fun closure hclosure => ?_⟩
  · rw [hstores] at hm
    exact List.map_subset _ hoffers (h.stored m hm)
  · rw [hclosures] at hclosure
    exact (h.lawful closure hclosure).mono hextends fun hmem => by rwa [hstores] at hmem

/-- Writes that concern neither the messages nor the journal's copies. -/
theorem Accounted.of_same {b' : Broker} (h : Accounted b hand)
    (hsequence : b'.sequence = b.sequence) (hwaiting : b'.waiting = b.waiting)
    (hoffers : b'.offers = b.offers) (hstores : b'.stores = b.stores)
    (hclosures : b'.closures = b.closures) (hextends : Extends b b') : Accounted b' hand := by
  refine h.of_sound ?_ (by rw [hoffers]; exact List.Subset.refl _) hstores hclosures hextends
  have hcustody : b'.custody hand = b.custody hand := by
    rw [custody, hsequence, hwaiting, hoffers, hclosures, custody]
  rw [hcustody]
  exact h.sound

/-- A copy that is in hand has been offered, and has not left. -/
theorem Accounted.copy_of_hand {message : Held} (h : Accounted b (message ::ₘ hand)) :
    message.copy ∈ b.offers.map (·.copy) ∧
      ∀ closure ∈ b.closures, closure.1.copy ≠ message.copy := by
  have hissued : message.asCopy ∈ (b.custody (message ::ₘ hand)).issued := by
    rw [h.sound.balanced]
    simp [custody, Held.ticketed]
  have hcount := h.sound.count_eq_one (Multiset.mem_map_of_mem Prod.fst hissued)
  constructor
  · obtain ⟨m, hm, heq⟩ := List.mem_map.mp hissued
    exact List.mem_map.mpr ⟨m, hm, congrArg Prod.fst heq⟩
  · intro closure hclosure heq
    have hin : 0 < ((b.custody (message ::ₘ hand)).inHand.map (·.2.1)).count message.copy := by
      rw [Multiset.count_pos]
      simp [custody, Held.ticketed, Held.asCopy]
    have hclosed :
        0 < ((b.custody (message ::ₘ hand)).closed.map Prod.fst).count message.copy := by
      rw [Multiset.count_pos, ← heq]
      simp only [custody, Multiset.map_coe, List.map_map, Multiset.mem_coe]
      exact List.mem_map_of_mem hclosure
    simp only [Held.asCopy] at hcount
    omega

/-- Shelve: the message in hand goes to the back of a topic. -/
theorem Accounted.pushBack {message : Held} (h : Accounted b (message ::ₘ hand))
    (hfind : b.find topic = some state) : Accounted (b.pushBack topic message) hand := by
  obtain ⟨hoffered, hopen⟩ := h.copy_of_hand
  obtain ⟨rest, hwaiting, hafter⟩ := waiting_write hfind
  have hpush : b.pushBack topic message =
      (b.write topic { state with messages := state.messages ++ [message] }).log
        (.stored topic message) := by
    rw [Broker.pushBack, hfind, Option.getD_some]
  have hextends := (sameTopics_write hfind (state.messages ++ [message])).extends
  rw [hpush]
  refine ⟨?_, fun m hm => ?_, fun closure hclosure => ?_⟩
  · have hmove := (Custody.Move.shelve (b.custody (message ::ₘ hand)) message.ticketed
      (hand.map Held.ticketed) (Multiset.map_cons _ _ _)).sound h.sound
    have hshelved : ((b.write topic { state with messages := state.messages ++ [message] }).log
        (.stored topic message)).waiting = message ::ₘ b.waiting := by
      change (b.write topic { state with messages := state.messages ++ [message] }).waiting = _
      rw [hafter, hwaiting, coe_concat_eq_cons, Multiset.cons_add]
    rw [custody, hshelved, offers_log, closures_log, List.append_nil, List.append_nil,
      Multiset.map_cons]
    exact hmove
  · rw [stores_log, List.mem_append, List.mem_singleton] at hm
    rw [offers_log, List.append_nil]
    rcases hm with hm | rfl
    · exact h.stored m hm
    · exact hoffered
  · rw [closures_log, List.append_nil] at hclosure
    refine (h.lawful closure hclosure).mono hextends fun hmem => ?_
    rw [stores_log, List.map_append, List.mem_append] at hmem
    rcases hmem with hmem | hmem
    · exact hmem
    · exact absurd (List.mem_singleton.mp hmem) (hopen closure hclosure)

/-- Close: the message in hand leaves for good. -/
theorem Accounted.close {message : Held} {fate : Fate} (h : Accounted b (message ::ₘ hand))
    (hlawful : b.Lawful message fate) : Accounted (b.close message fate) hand := by
  have hmono : ∀ m f, b.Lawful m f → (b.close message fate).Lawful m f :=
    fun m f hf => hf.mono (SameTopics.of_find fun _ => rfl).extends fun hmem => by
      rwa [Broker.close, stores_log, List.append_nil] at hmem
  rw [Broker.close] at hmono ⊢
  refine ⟨?_, fun m hm => ?_, fun closure hclosure => ?_⟩
  · have hmove := (Custody.Move.close (b.custody (message ::ₘ hand)) message.ticketed
      (hand.map Held.ticketed) (Multiset.map_cons _ _ _)).sound h.sound
    rw [custody, offers_log, List.append_nil, closures_log, List.map_append, List.map_singleton,
      coe_concat_eq_cons]
    exact hmove
  · rw [stores_log, List.append_nil] at hm
    rw [offers_log, List.append_nil]
    exact h.stored m hm
  · rw [closures_log, List.mem_append, List.mem_singleton] at hclosure
    rcases hclosure with hclosure | rfl
    · exact hmono _ _ (h.lawful closure hclosure)
    · exact hmono _ _ hlawful

/-- Reticket: the message in hand is renumbered. -/
theorem Accounted.deadLettered {message : Held} (h : Accounted b (message ::ₘ hand))
    (source : Topic) :
    Accounted (b.deadLettered source message) (b.renumbered message ::ₘ hand) := by
  have hmove := (Custody.Move.reticket (b.custody (message ::ₘ hand)) message.sequence
    message.asCopy (hand.map Held.ticketed) (Multiset.map_cons _ _ _)).sound h.sound
  rw [Broker.deadLettered]
  refine h.of_sound ?_ ?_ ?_ ?_ (SameTopics.of_find fun _ => rfl).extends
  · rw [custody, offers_log, closures_log, List.append_nil, List.append_nil, Multiset.map_cons]
    exact hmove
  · rw [offers_log, List.append_nil]
    exact List.Subset.refl _
  · rw [stores_log, List.append_nil]
    rfl
  · rw [closures_log, List.append_nil]
    rfl

/-- Issue: a copy is numbered, and no topic has stored it yet. -/
theorem Accounted.offered (h : Accounted b hand) (topic : Topic) (body : Bytes) :
    Accounted (b.offered topic body) (b.fresh body ::ₘ hand) ∧
      (b.fresh body).copy ∉ (b.offered topic body).stores.map (·.copy) := by
  have hmove := (Custody.Move.issue (b.custody hand) body).sound h.sound
  have hstores : (b.offered topic body).stores = b.stores := by
    rw [Broker.offered, stores_log, List.append_nil]
    rfl
  refine ⟨h.of_sound ?_ ?_ hstores ?_ (SameTopics.of_find fun _ => rfl).extends, fun hmem => ?_⟩
  · rw [Broker.offered, custody, offers_log, List.map_append, List.map_singleton,
      coe_concat_eq_cons, closures_log, List.append_nil, Multiset.map_cons]
    exact hmove
  · rw [Broker.offered, offers_log]
    exact List.subset_append_left _ _
  · rw [Broker.offered, closures_log, List.append_nil]
    rfl
  · rw [hstores] at hmem
    obtain ⟨m, hm, hcopy⟩ := List.mem_map.mp hmem
    have hissued : m.copy ∈ (b.custody hand).issued.map Prod.fst := by
      simp only [custody, Multiset.map_coe, List.map_map, Multiset.mem_coe]
      exact h.stored m hm
    have hle := h.sound.copies_le _ hissued
    rw [hcopy] at hle
    exact absurd hle (Nat.not_succ_le_self _)

/-- Pick: the head of a topic comes into hand. -/
theorem Accounted.pop (h : Accounted b hand) (hfind : b.find topic = some state) {message : Held}
    {rest : List Held} (hmessages : state.messages = message :: rest) :
    Accounted (b.write topic { state with messages := rest }) (message ::ₘ hand) := by
  obtain ⟨others, hwaiting, hafter⟩ := waiting_write hfind
  have hcons : b.waiting =
      message ::ₘ (b.write topic { state with messages := rest }).waiting := by
    rw [hwaiting, hafter, hmessages, ← Multiset.cons_coe, Multiset.cons_add]
  have hmove := (Custody.Move.pick (b.custody hand) message.ticketed
    ((b.write topic { state with messages := rest }).waiting.map Held.ticketed)
    (by rw [custody, hcons, Multiset.map_cons])).sound h.sound
  refine h.of_sound ?_ (List.Subset.refl _) rfl rfl (sameTopics_write hfind rest).extends
  rw [custody, Multiset.map_cons]
  exact hmove

/-- Shelve: the message in hand goes back to the head of a topic. -/
theorem Accounted.pushFront {message : Held} (h : Accounted b (message ::ₘ hand))
    (hfind : b.find topic = some state) :
    Accounted (b.pushFront topic { message with redelivered := true }) hand := by
  obtain ⟨others, hwaiting, hafter⟩ := waiting_write hfind
  have hmove := (Custody.Move.shelve (b.custody (message ::ₘ hand)) message.ticketed
    (hand.map Held.ticketed) (Multiset.map_cons _ _ _)).sound h.sound
  have hcons : (b.pushFront topic { message with redelivered := true }).waiting =
      { message with redelivered := true } ::ₘ b.waiting := by
    rw [pushFront_of_find hfind, hafter, hwaiting, ← Multiset.cons_coe, Multiset.cons_add]
  refine h.of_sound ?_ (List.Subset.refl _) rfl rfl
    (sameTopics_pushFront (by rw [hfind, Option.isSome_some]) _).extends
  rw [custody, hcons, Multiset.map_cons]
  exact hmove

/-- Everything that waits at a topic is closed. -/
theorem Accounted.purge (h : Accounted b hand) (topic : Topic) : Accounted (purge topic b).2 hand := by
  simp only [Broker.purge, Exec.get_bind]
  cases hfind : b.find topic with
  | none => exact h
  | some state =>
      obtain ⟨rest, hwaiting, hafter⟩ := waiting_write hfind
      have hextends := (sameTopics_write hfind []).extends
      have hoffers : (b.purged topic state).offers = b.offers := by
        simp [offers, purged, List.filterMap_map]
      have hstores : (b.purged topic state).stores = b.stores := by
        simp [stores, purged, List.filterMap_map]
      have hclosures : (b.purged topic state).closures =
          b.closures ++ state.messages.map (·, .purged) := by
        simp [closures, purged, List.filterMap_map]
      have hrest : (b.purged topic state).waiting = rest :=
        (hafter { state with messages := [] }).trans (by simp)
      have hclosed : (((b.purged topic state).closures.map (·.1.asCopy) : List _) :
          Multiset (Copy Bytes)) = ((state.messages : Multiset Held).map Held.ticketed).map Prod.snd +
            (b.closures.map (·.1.asCopy) : List _) := by
        rw [hclosures, List.map_append, ← Multiset.coe_add, add_comm, Multiset.map_map,
          List.map_map]
        rfl
      have hclear := h.sound.clear ((state.messages : Multiset Held).map Held.ticketed)
        (rest.map Held.ticketed) (by rw [custody, hwaiting, Multiset.map_add])
      change Accounted (b.purged topic state) hand
      refine ⟨?_, by rw [hstores, hoffers]; exact h.stored, fun closure hclosure => ?_⟩
      · rw [custody, hoffers, hrest, hclosed]
        exact hclear
      · have hmono : ∀ m f, b.Lawful m f → (b.purged topic state).Lawful m f :=
          fun m f hf => hf.mono hextends fun hmem => by rwa [hstores] at hmem
        rw [hclosures, List.mem_append] at hclosure
        rcases hclosure with hclosure | hclosure
        · exact hmono _ _ (h.lawful closure hclosure)
        · obtain ⟨m, -, rfl⟩ := List.mem_map.mp hclosure
          exact .inl trivial

end Writes

/-! ## Publishing and dead-lettering -/

/-- A refusal of this topic is lawful: it is a forensic destination, or no topic has ever
stored the copy. -/
def MayRefuse (b : Broker) (topic : Topic) (message : Held) : Prop :=
  (∃ source, topic = deadLetterTopic source) ∨ message.copy ∉ b.stores.map (·.copy)

/-- A full topic refuses lawfully. -/
theorem MayRefuse.lawful {b : Broker} {topic : Topic} {message : Held} {state : TopicState}
    (h : b.MayRefuse topic message) (hfind : b.find topic = some state)
    (hfull : state.full = true) :
    b.Lawful message (.refused topic state.messages.length) := by
  simp only [TopicState.full, Bool.and_eq_true, decide_eq_true_eq] at hfull
  exact h.imp_left fun hforensic => ⟨hforensic, state.options, optionsOf_of_find hfind, hfull⟩

/-- What `deadLetterVia` needs of the `enqueue` it is given. -/
def EnqueueAccounts (enqueue : Topic → Held → Exec Exn Broker Bool) : Prop :=
  ∀ (topic : Topic) (message : Held) (b : Broker) (hand : Multiset Held) (stored : Bool),
    (b.find topic).isSome = true → b.MayRefuse topic message →
    Accounted b (message ::ₘ hand) →
    (enqueue topic message b).1 = .ok stored → Accounted (enqueue topic message b).2 hand

theorem deadLetterVia_accounts {enqueue : Topic → Held → Exec Exn Broker Bool}
    (henqueue : EnqueueAccounts enqueue) {b : Broker} {source : Topic} {message : Held}
    {hand : Multiset Held} (hsource : (b.find source).isSome = true)
    (h : Accounted b (message ::ₘ hand))
    (hok : (deadLetterVia enqueue source message b).1 = .ok ()) :
    Accounted (deadLetterVia enqueue source message b).2 hand := by
  obtain ⟨state, hfind⟩ := Option.isSome_iff_exists.mp hsource
  cases hdead : b.deadLetters source with
  | false =>
      rw [deadLetterVia_closed hdead]
      refine h.close (.inl ⟨state.options, optionsOf_of_find hfind, ?_⟩)
      rw [← deadLetters_of_find hfind, hdead]
  | true =>
      cases hforensic : b.find (deadLetterTopic source) with
      | none =>
          rw [deadLetterVia_missing hdead hforensic] at hok
          exact absurd hok (by simp)
      | some forensic =>
          rw [deadLetterVia_forward hdead hforensic] at hok ⊢
          obtain ⟨stored, hstored⟩ := Exec.ok_of_map_ok hok
          exact henqueue (deadLetterTopic source) (b.renumbered message)
            (b.deadLettered source message) hand stored
            (by rw [find_deadLettered, hforensic, Option.isSome_some]) (.inl ⟨source, rfl⟩)
            (h.deadLettered source) hstored

theorem enqueueLocked_accounts (fuel : Nat) : EnqueueAccounts (enqueueLocked fuel) := by
  induction fuel with
  | zero =>
      intro topic message b hand stored _ _ _ hok
      exact absurd hok (by simp [enqueueLocked])
  | succ fuel ih =>
      intro topic message b hand stored htopic hrefuse h hok
      obtain ⟨state, hfind⟩ := Option.isSome_iff_exists.mp htopic
      cases hfull : state.full with
      | false =>
          rw [enqueueLocked_room hfind hfull]
          exact h.pushBack hfind
      | true =>
          cases hpolicy : state.options.overflow with
          | rejectPublish =>
              rw [enqueueLocked_refused hfind hfull (.inl hpolicy)]
              exact h.close (hrefuse.lawful hfind hfull)
          | rejectPublishDlx =>
              cases hdead : state.options.deadLetter with
              | false =>
                  rw [enqueueLocked_refused hfind hfull (.inr ⟨hpolicy, hdead⟩)]
                  exact h.close (hrefuse.lawful hfind hfull)
              | true =>
                  rw [enqueueLocked_dlx hfind hfull hpolicy hdead] at hok ⊢
                  obtain ⟨_, hreturns⟩ := Exec.ok_of_map_ok hok
                  exact deadLetterVia_accounts ih htopic h hreturns
          | dropHead =>
              obtain ⟨evicted, rest, hmessages⟩ :=
                List.exists_cons_of_ne_nil (messages_ne_nil_of_full hfull)
              rw [enqueueLocked_dropHead hfind hfull hpolicy hmessages] at hok ⊢
              have hpopped := h.pop hfind hmessages
              have hself := find_write_self b topic { state with messages := rest }
              cases hdead : state.options.deadLetter with
              | false =>
                  have hlawful : (b.write topic { state with messages := rest }).Lawful evicted
                      (.evicted topic) := .inl ⟨_, optionsOf_of_find hself, hdead⟩
                  exact (hpopped.close hlawful).pushBack hself
              | true =>
                  rw [hdead, if_pos rfl] at hok
                  rw [if_pos rfl]
                  have hsame := sameTopics_of_evolves (deadLetterVia_evolves
                    (enqueueLocked_evolves fuel) topic evicted
                    (b.write topic { state with messages := rest })).1
                  have hafter := fun hreturns => deadLetterVia_accounts ih
                    (by rw [hself, Option.isSome_some]) hpopped hreturns
                  rcases hrun : deadLetterVia (enqueueLocked fuel) topic evicted
                    (b.write topic { state with messages := rest }) with ⟨r, c⟩
                  rw [hrun] at hok hsame hafter
                  cases r with
                  | error e => exact absurd hok (by simp)
                  | ok =>
                      obtain ⟨after, hfound⟩ := Option.isSome_iff_exists.mp
                        (hsame.extends.isSome (by rw [hself, Option.isSome_some]))
                      exact (hafter rfl).pushBack hfound

/-- A rejected message is accounted for. -/
theorem Accounted.deadLetter {b : Broker} {topic : Topic} {message : Held} {hand : Multiset Held}
    (h : Accounted b (message ::ₘ hand)) (hprov : Provisioned b)
    (htopic : (b.find topic).isSome = true) : Accounted (deadLetter topic message b).2 hand :=
  deadLetterVia_accounts (enqueueLocked_accounts _) htopic h
    (deadLetterLocked_returns hprov topic message)

theorem Accounted.offer {b : Broker} {topic : Topic} {hand : Multiset Held} (h : Accounted b hand)
    (hprov : Provisioned b) (htopic : (b.find topic).isSome = true) (body : Bytes) :
    Accounted (offer topic body b).2 hand := by
  obtain ⟨stored, hstored⟩ := offer_returns hprov htopic body
  obtain ⟨hissued, hfresh⟩ := h.offered topic body
  exact enqueueLocked_accounts b.topics.size topic (b.fresh body) (b.offered topic body) hand stored
    htopic (.inr hfresh) hissued hstored

theorem Accounted.offerAll {group : String} {routing : Routing} {key : String} {body : Bytes}
    {hand : Multiset Held} (names : List Topic) {b : Broker} (h : Accounted b hand)
    (hprov : Provisioned b) (hnames : ∀ name ∈ names, (b.find name).isSome = true)
    (accepted : Bool) :
    Accounted (offerAll group routing key body names accepted b).2 hand := by
  induction names generalizing b accepted with
  | nil => exact h
  | cons name rest ih =>
      have hrest : ∀ name ∈ rest, (b.find name).isSome = true :=
        fun name hname => hnames name (List.mem_cons_of_mem _ hname)
      simp only [Broker.offerAll, Exec.get_bind]
      split
      · have hname := hnames name List.mem_cons_self
        have hsame := sameTopics_of_evolves (offer_evolves hname body)
        have hafter := h.offer hprov hname body
        rw [Exec.bind_apply]
        rcases hrun : Broker.offer name body b with ⟨r, c⟩
        rw [hrun] at hsame hafter
        cases r with
        | error e => exact hafter
        | ok stored =>
            exact ih hafter (hprov.of_sameTopics hsame)
              (fun name hname => hsame.extends.isSome (hrest name hname)) _
      · exact ih h hprov hrest accepted

/-- Publishing to a declared topic is accounted for. -/
theorem Accounted.publish {b : Broker} {topic : Topic} {hand : Multiset Held}
    (h : Accounted b hand) (hprov : Provisioned b) (htopic : (b.find topic).isSome = true)
    (body : Bytes) (route : String) : Accounted (publish topic body route b).2 hand := by
  have hfind : ∀ t, (b.opened topic).find t = b.find t := by
    intro t
    rw [find_opened]
    split
    · next heq =>
        subst heq
        obtain ⟨state, hstate⟩ := Option.isSome_iff_exists.mp htopic
        rw [hstate, Option.getD_some]
    · rfl
  have hjournal : (b.opened topic).journal = b.journal := by
    rw [opened]
    split <;> rfl
  have hopened : Accounted (b.opened topic) hand := by
    refine h.of_same (sequence_opened b topic) (gather_congr _ hfind) ?_ ?_ ?_
      (SameTopics.of_find hfind).extends
    · rw [offers, hjournal, offers]
    · rw [stores, hjournal, stores]
    · rw [closures, hjournal, closures]
  have hprov' := hprov.of_sameTopics (SameTopics.of_find hfind)
  have htopic' : ((b.opened topic).find topic).isSome = true := by rw [hfind, htopic]
  simp only [Broker.publish, Exec.get_bind]
  split
  · next hgroup =>
      rw [opened, if_pos hgroup] at hopened hprov' htopic'
      rw [Exec.set_bind]
      exact hopened.offer hprov' htopic' body
  · next hgroup =>
      rw [opened, if_neg hgroup] at hopened hprov'
      rw [Exec.set_bind]
      exact hopened.offerAll _ hprov' (fun name hname => (mem_keys_iff b name).mp hname) true

/-! ## Declarations, deliveries and dispositions -/

theorem Accounted.ensureTopic {b : Broker} {hand : Multiset Held} (h : Accounted b hand)
    (topic : Topic) (options : TopicOptions) :
    Accounted (ensureTopic topic options b).2 hand := by
  have hextends := extends_ensureTopic topic options b
  obtain ⟨groups, ⟨hsame, -⟩ | ⟨hnone, hnew⟩⟩ := ensureTopic_apply topic options b
  · rw [hsame] at hextends ⊢
    exact h.of_same rfl rfl rfl rfl rfl hextends
  · rw [hnew] at hextends ⊢
    refine h.of_same rfl ?_ rfl rfl rfl hextends
    have hempty : ((declared topic options).messages : Multiset Held) + b.waiting = b.waiting :=
      zero_add _
    exact (gather_insert_none _ hnone (declared topic options)).trans hempty

/-- Journal entries of deliveries concern no copy. -/
theorem Accounted.log_delivered {b : Broker} {hand : Multiset Held} (h : Accounted b hand)
    (i : Nat) (topic : Topic) (message : Held) :
    Accounted (b.log (.delivered i topic message)) hand :=
  h.of_same rfl rfl (by rw [offers_log, List.append_nil]) (by rw [stores_log, List.append_nil])
    (by rw [closures_log, List.append_nil]) (SameTopics.of_find fun _ => rfl).extends

theorem Accounted.log_resolved {b : Broker} {hand : Multiset Held} (h : Accounted b hand)
    (i n : Nat) : Accounted (b.log (.resolved i n)) hand :=
  h.of_same rfl rfl (by rw [offers_log, List.append_nil]) (by rw [stores_log, List.append_nil])
    (by rw [closures_log, List.append_nil]) (SameTopics.of_find fun _ => rfl).extends

theorem Accounted.performed {b : Broker} {topic : Topic} {message : Held} {hand : Multiset Held}
    (h : Accounted b (message ::ₘ hand)) (hprov : Provisioned b)
    (htopic : (b.find topic).isSome = true) {d : Disposition} (hd : d ≠ .deferred) :
    Accounted (b.performed topic message d) hand := by
  cases d with
  | ack => exact h.close (.inl trivial)
  | requeue =>
      obtain ⟨state, hfind⟩ := Option.isSome_iff_exists.mp htopic
      exact h.pushFront hfind
  | reject => exact h.deadLetter hprov htopic
  | deferred => exact absurd rfl hd

end Broker

end Motus.InMemory
