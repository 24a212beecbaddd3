import Motus.InMemory.Broker

set_option autoImplicit false

/-!
# What publishing does to the queues

Publishing, and the dead-lettering it sets off, only ever takes messages from the
head of a queue and puts newly numbered ones at its back.  `Advances` says this of
one topic and `Evolves` of the broker; every result about order, capacity or
provisioning uses it instead of the recursion of `enqueueLocked`.
-/

namespace Motus.InMemory

open Motus.Foundation Motus.Transport

namespace Broker

/-! ## Looking up after a write -/

@[simp] theorem find_write (b : Broker) (topic t : Topic) (state : TopicState) :
    (b.write topic state).find t = if topic = t then some state else b.find t := by
  simp [find, write, Std.TreeMap.getElem?_insert]

theorem find_write_self (b : Broker) (topic : Topic) (state : TopicState) :
    (b.write topic state).find topic = some state := by simp

theorem find_write_of_ne (b : Broker) {topic t : Topic} (h : topic ≠ t) (state : TopicState) :
    (b.write topic state).find t = b.find t := by simp [h]

@[simp] theorem find_log (b : Broker) (e : Entry) (t : Topic) : (b.log e).find t = b.find t := rfl

@[simp] theorem find_close (b : Broker) (m : Held) (f : Fate) (t : Topic) :
    (b.close m f).find t = b.find t := rfl

@[simp] theorem find_offered (b : Broker) (topic t : Topic) (body : Bytes) :
    (b.offered topic body).find t = b.find t := rfl

@[simp] theorem find_deadLettered (b : Broker) (source t : Topic) (m : Held) :
    (b.deadLettered source m).find t = b.find t := rfl

theorem find_pushBack (b : Broker) (topic t : Topic) (m : Held) :
    (b.pushBack topic m).find t =
      if topic = t then
        some { (b.find topic).getD {} with messages := ((b.find topic).getD {}).messages ++ [m] }
      else b.find t := by
  simp [pushBack]

theorem find_pushFront (b : Broker) (topic t : Topic) (m : Held) :
    (b.pushFront topic m).find t =
      if topic = t then
        some { (b.find topic).getD {} with messages := m :: ((b.find topic).getD {}).messages }
      else b.find t := by
  simp [pushFront]

theorem find_touch (b : Broker) (topic t : Topic) :
    (b.touch topic).find t = if topic = t then some ((b.find topic).getD {}) else b.find t := by
  have hmem : topic ∈ b.topics ↔ (b.topics[topic]?).isSome := Std.TreeMap.mem_iff_isSome_getElem?
  simp only [find, touch, Std.TreeMap.getElem?_insertIfNew, Std.LawfulEqCmp.compare_eq_iff_eq,
    hmem]
  by_cases h : topic = t
  · subst h
    cases hfind : b.topics[topic]? <;> simp
  · simp [h]

@[simp] theorem sequence_write (b : Broker) (topic : Topic) (state : TopicState) :
    (b.write topic state).sequence = b.sequence := rfl
@[simp] theorem sequence_close (b : Broker) (m : Held) (f : Fate) :
    (b.close m f).sequence = b.sequence := rfl
@[simp] theorem sequence_pushBack (b : Broker) (topic : Topic) (m : Held) :
    (b.pushBack topic m).sequence = b.sequence := rfl
@[simp] theorem sequence_offered (b : Broker) (topic : Topic) (body : Bytes) :
    (b.offered topic body).sequence = b.sequence + 1 := rfl
@[simp] theorem sequence_deadLettered (b : Broker) (source : Topic) (m : Held) :
    (b.deadLettered source m).sequence = b.sequence + 1 := rfl

@[simp] theorem groups_write (b : Broker) (topic : Topic) (state : TopicState) :
    (b.write topic state).groups = b.groups := rfl
@[simp] theorem groups_close (b : Broker) (m : Held) (f : Fate) :
    (b.close m f).groups = b.groups := rfl
@[simp] theorem groups_pushBack (b : Broker) (topic : Topic) (m : Held) :
    (b.pushBack topic m).groups = b.groups := rfl
@[simp] theorem groups_offered (b : Broker) (topic : Topic) (body : Bytes) :
    (b.offered topic body).groups = b.groups := rfl
@[simp] theorem groups_deadLettered (b : Broker) (source : Topic) (m : Held) :
    (b.deadLettered source m).groups = b.groups := rfl

theorem history_log (b : Broker) (e : Entry) :
    (b.log e).history = b.history ++ (if e.ofTransport then [e] else []) := by
  simp [history, log, List.filter_append, List.filter_cons]

@[simp] theorem history_write (b : Broker) (topic : Topic) (state : TopicState) :
    (b.write topic state).history = b.history := rfl
@[simp] theorem history_close (b : Broker) (m : Held) (f : Fate) :
    (b.close m f).history = b.history := by simp [close, history_log, Entry.ofTransport]
@[simp] theorem history_pushBack (b : Broker) (topic : Topic) (m : Held) :
    (b.pushBack topic m).history = b.history := by simp [pushBack, history_log, Entry.ofTransport]
@[simp] theorem history_offered (b : Broker) (topic : Topic) (body : Bytes) :
    (b.offered topic body).history = b.history := by
  simp only [offered, history_log, Entry.ofTransport, Bool.false_eq_true, if_false,
    List.append_nil]
  rfl
@[simp] theorem history_deadLettered (b : Broker) (source : Topic) (m : Held) :
    (b.deadLettered source m).history = b.history := by
  simp only [deadLettered, history_log, Entry.ofTransport, Bool.false_eq_true, if_false,
    List.append_nil]
  rfl

end Broker

/-! ## Advancing a queue -/

/-- A queue after publishing: some of its head is gone, and messages numbered in
`(lo, hi]`, none of them flagged as redelivered, have come to its back in order. -/
structure Advances (lo hi : Nat) (before after : TopicState) : Prop where
  options : after.options = before.options
  binding : after.binding = before.binding
  messages : ∃ k fresh, after.messages = before.messages.drop k ++ fresh ∧
    fresh.Pairwise (fun m m' => m.sequence < m'.sequence) ∧
    ∀ m ∈ fresh, lo < m.sequence ∧ m.sequence ≤ hi ∧ m.redelivered = false
  bounded : 0 < before.options.maxLength →
    after.messages.length ≤ max before.messages.length before.options.maxLength

theorem Advances.refl (lo hi : Nat) (state : TopicState) : Advances lo hi state state :=
  ⟨rfl, rfl, ⟨0, [], by simp⟩, fun _ => Nat.le_max_left _ _⟩

theorem Advances.trans {lo mid lo' hi : Nat} {s t u : TopicState} (h : Advances lo mid s t)
    (h' : Advances lo' hi t u) (hlo : lo ≤ lo') (hmid : mid ≤ lo') (hhi : mid ≤ hi) :
    Advances lo hi s u := by
  obtain ⟨k, fresh, hmessages, hsorted, hfresh⟩ := h.messages
  obtain ⟨k', fresh', hmessages', hsorted', hfresh'⟩ := h'.messages
  refine ⟨h'.options.trans h.options, h'.binding.trans h.binding,
    ⟨k + k', fresh.drop (k' - (s.messages.length - k)) ++ fresh', ?_, ?_, ?_⟩, ?_⟩
  · rw [hmessages', hmessages, List.drop_append, List.drop_drop, List.length_drop,
      List.append_assoc]
  · rw [List.pairwise_append]
    refine ⟨hsorted.sublist (List.drop_sublist _ _), hsorted', fun m hm m' hm' => ?_⟩
    have hle := (hfresh m (List.mem_of_mem_drop hm)).2.1
    have hlt := (hfresh' m' hm').1
    omega
  · intro m hm
    rcases List.mem_append.mp hm with hm | hm
    · obtain ⟨hl, hh, hr⟩ := hfresh m (List.mem_of_mem_drop hm)
      exact ⟨hl, by omega, hr⟩
    · obtain ⟨hl, hh, hr⟩ := hfresh' m hm
      exact ⟨by omega, hh, hr⟩
  · intro hpos
    have hfirst := h.bounded hpos
    have hsecond := h'.bounded (by rw [h.options]; exact hpos)
    rw [h.options] at hsecond
    omega

/-- The broker after publishing: no topic comes or goes, the groups and what the
transports did stay, and every queue has advanced with messages numbered above `lo`. -/
structure Evolves (lo : Nat) (b b' : Broker) : Prop where
  groups : b'.groups = b.groups
  history : b'.history = b.history
  sequence_le : b.sequence ≤ b'.sequence
  absent : ∀ t, b.find t = none → b'.find t = none
  present : ∀ t state, b.find t = some state →
    ∃ state', b'.find t = some state' ∧ Advances lo b'.sequence state state'

namespace Evolves

variable {lo : Nat} {b b' b'' : Broker}

theorem refl (lo : Nat) (b : Broker) : Evolves lo b b :=
  ⟨rfl, rfl, Nat.le_refl _, fun _ h => h, fun _ state h => ⟨state, h, .refl lo _ state⟩⟩

/-- Writes that leave the queues alone. -/
theorem of_find (hgroups : b'.groups = b.groups) (hhistory : b'.history = b.history)
    (hsequence : b.sequence ≤ b'.sequence) (hfind : ∀ t, b'.find t = b.find t) :
    Evolves lo b b' :=
  ⟨hgroups, hhistory, hsequence, fun t h => by rw [hfind, h],
    fun t state h => ⟨state, by rw [hfind, h], .refl lo _ state⟩⟩

theorem trans (h : Evolves lo b b') (h' : Evolves b'.sequence b' b'') (hlo : lo ≤ b'.sequence) :
    Evolves lo b b'' := by
  refine ⟨h'.groups.trans h.groups, h'.history.trans h.history, Nat.le_trans h.sequence_le h'.sequence_le,
    fun t ht => h'.absent t (h.absent t ht), fun t state ht => ?_⟩
  obtain ⟨state', hstate', hadvance⟩ := h.present t state ht
  obtain ⟨state'', hstate'', hadvance'⟩ := h'.present t state' hstate'
  exact ⟨state'', hstate'', hadvance.trans hadvance' hlo (Nat.le_refl _) h'.sequence_le⟩

theorem find_isSome (h : Evolves lo b b') (t : Topic) :
    (b'.find t).isSome = (b.find t).isSome := by
  cases ht : b.find t with
  | none => rw [h.absent t ht]
  | some state =>
      obtain ⟨state', hstate', _⟩ := h.present t state ht
      rw [hstate', Option.isSome_some, Option.isSome_some]

/-- Dropping the head of one queue. -/
theorem pop {topic : Topic} {state : TopicState} (hfind : b.find topic = some state) (k : Nat) :
    Evolves lo b (b.write topic { state with messages := state.messages.drop k }) := by
  refine ⟨rfl, rfl, Nat.le_refl _, fun t ht => ?_, fun t before ht => ?_⟩
  · rw [Broker.find_write, if_neg, ht]
    rintro rfl
    rw [hfind] at ht
    exact absurd ht (by simp)
  · by_cases heq : topic = t
    · subst heq
      obtain rfl : state = before := Option.some.inj (hfind.symm.trans ht)
      refine ⟨_, Broker.find_write_self _ _ _, rfl, rfl, ⟨k, [], by simp⟩, fun _ => ?_⟩
      exact Nat.le_trans (by simp) (Nat.le_max_left _ _)
    · exact ⟨before, by rw [Broker.find_write_of_ne _ heq, ht], .refl lo _ before⟩

/-- Pushing a message, numbered above `lo`, to the back of a queue that has lost at
most its head since. -/
theorem pushBack {topic : Topic} {state : TopicState} {message : Held} {k : Nat}
    (h : Evolves lo b b') (hfind : b.find topic = some state)
    (hfind' : b'.find topic = some { state with messages := state.messages.drop k })
    (hroom : 0 < state.options.maxLength →
      (state.messages.drop k).length + 1 ≤ max state.messages.length state.options.maxLength)
    (hlo : lo < message.sequence) (hhi : message.sequence ≤ b'.sequence)
    (hflag : message.redelivered = false) : Evolves lo b (b'.pushBack topic message) := by
  refine ⟨h.groups, (Broker.history_pushBack _ _ _).trans h.history, h.sequence_le,
    fun t ht => ?_, fun t before ht => ?_⟩
  · rw [Broker.find_pushBack, if_neg, h.absent t ht]
    rintro rfl
    rw [hfind] at ht
    exact absurd ht (by simp)
  · rw [Broker.find_pushBack]
    by_cases heq : topic = t
    · subst heq
      obtain rfl : state = before := Option.some.inj (hfind.symm.trans ht)
      rw [if_pos rfl, hfind', Option.getD_some]
      refine ⟨_, rfl, rfl, rfl, ⟨k, [message], rfl, List.pairwise_singleton _ _, ?_⟩, ?_⟩
      · intro m hm
        rw [List.mem_singleton.mp hm]
        exact ⟨hlo, hhi, hflag⟩
      · intro hpos
        simpa using hroom hpos
    · rw [if_neg heq]
      exact h.present t before ht

end Evolves

/-! ## `enqueueLocked` -/

namespace Broker

/-- A full queue is not empty. -/
theorem messages_ne_nil_of_full {state : TopicState} (h : state.full = true) :
    state.messages ≠ [] := by
  intro hnil
  simp only [TopicState.full, hnil, List.length_nil, Bool.and_eq_true, decide_eq_true_eq] at h
  omega

/-- Whether a topic exists and has a forensic destination by its options. -/
def deadLetters (b : Broker) (topic : Topic) : Bool :=
  (b.find topic).any (·.options.deadLetter)

theorem deadLetters_of_find {b : Broker} {topic : Topic} {state : TopicState}
    (h : b.find topic = some state) : b.deadLetters topic = state.options.deadLetter := by
  simp [deadLetters, h]

/-! ### What each branch does -/

section Branches

variable {b : Broker} {enqueue : Topic → Held → Exec Exn Broker Bool}

theorem deadLetterVia_closed {source : Topic} (h : b.deadLetters source = false)
    (message : Held) :
    deadLetterVia enqueue source message b = (.ok (), b.close message (.rejected source)) := by
  simp only [deadLetterVia, Exec.get_bind]
  cases hsource : b.find source with
  | none => rfl
  | some state =>
      rw [deadLetters_of_find hsource] at h
      simp [h]

theorem deadLetterVia_missing {source : Topic} (h : b.deadLetters source = true)
    (hforensic : b.find (deadLetterTopic source) = none) (message : Held) :
    deadLetterVia enqueue source message b =
      (.error (.logicError ("dead-letter destination '" ++ deadLetterTopic source ++
        "' was not provisioned with source '" ++ source ++ "'")), b) := by
  simp only [deadLetterVia, Exec.get_bind]
  cases hsource : b.find source with
  | none => simp [deadLetters, hsource] at h
  | some state =>
      rw [deadLetters_of_find hsource] at h
      simp [h, hforensic]

theorem deadLetterVia_forward {source : Topic} {forensic : TopicState}
    (h : b.deadLetters source = true)
    (hforensic : b.find (deadLetterTopic source) = some forensic) (message : Held) :
    deadLetterVia enqueue source message b =
      ((enqueue (deadLetterTopic source) (b.renumbered message)
        (b.deadLettered source message)).1.map fun _ => (),
       (enqueue (deadLetterTopic source) (b.renumbered message)
        (b.deadLettered source message)).2) := by
  simp only [deadLetterVia, Exec.get_bind]
  cases hsource : b.find source with
  | none => simp [deadLetters, hsource] at h
  | some state =>
      rw [deadLetters_of_find hsource] at h
      simp [h, hforensic]

variable {topic : Topic} {state : TopicState} (hfind : b.find topic = some state)
include hfind

theorem enqueueLocked_room (hroom : state.full = false) (fuel : Nat) (message : Held) :
    enqueueLocked (fuel + 1) topic message b = (.ok true, b.pushBack topic message) := by
  simp [enqueueLocked, hfind, hroom, Except.map]

theorem enqueueLocked_refused (hfull : state.full = true)
    (hpolicy : state.options.overflow = .rejectPublish ∨
      state.options.overflow = .rejectPublishDlx ∧ state.options.deadLetter = false)
    (fuel : Nat) (message : Held) :
    enqueueLocked (fuel + 1) topic message b =
      (.ok false, b.close message (.refused topic state.messages.length)) := by
  rcases hpolicy with hpolicy | ⟨hpolicy, hdead⟩
  · simp [enqueueLocked, hfind, hfull, hpolicy, Except.map]
  · simp [enqueueLocked, hfind, hfull, hpolicy, hdead, Except.map]

theorem enqueueLocked_dlx (hfull : state.full = true)
    (hpolicy : state.options.overflow = .rejectPublishDlx)
    (hdead : state.options.deadLetter = true) (fuel : Nat) (message : Held) :
    enqueueLocked (fuel + 1) topic message b =
      ((deadLetterVia (enqueueLocked fuel) topic message b).1.map fun _ => false,
       (deadLetterVia (enqueueLocked fuel) topic message b).2) := by
  simp [enqueueLocked, hfind, hfull, hpolicy, hdead]

theorem enqueueLocked_dropHead {evicted : Held} {rest : List Held} (hfull : state.full = true)
    (hpolicy : state.options.overflow = .dropHead) (hmessages : state.messages = evicted :: rest)
    (fuel : Nat) (message : Held) :
    enqueueLocked (fuel + 1) topic message b =
      match (if state.options.deadLetter then
          deadLetterVia (enqueueLocked fuel) topic evicted
            (b.write topic { state with messages := rest })
        else (.ok (), (b.write topic { state with messages := rest }).close evicted (.evicted topic))) with
      | (.ok _, c) => (.ok true, c.pushBack topic message)
      | (.error e, c) => (.error e, c) := by
  simp only [enqueueLocked, Exec.get_bind, hfind, Option.getD_some, hfull, if_true, hpolicy,
    dropHead, hmessages, bind_assoc, Exec.modify_bind]
  split
  · rw [Exec.bind_apply]
    rcases deadLetterVia (enqueueLocked fuel) topic evicted
      (b.write topic { state with messages := rest }) with ⟨r, c⟩
    cases r <;> rfl
  · rfl

end Branches

/-! ### How the queues change -/

/-- What `deadLetterVia` needs of the `enqueue` it is given. -/
def EnqueueEvolves (enqueue : Topic → Held → Exec Exn Broker Bool) : Prop :=
  ∀ (topic : Topic) (message : Held) (b : Broker) (state : TopicState) (lo : Nat),
    b.find topic = some state → lo < message.sequence → message.sequence ≤ b.sequence →
    message.redelivered = false →
      Evolves lo b (enqueue topic message b).2 ∧
        ∀ t : Topic, t.length < topic.length → (enqueue topic message b).2.find t = b.find t

/-- Renumbering a message leaves the queues alone. -/
theorem evolves_of_deadLettered {b c : Broker} {source : Topic} {message : Held}
    (h : Evolves b.sequence (b.deadLettered source message) c) : Evolves b.sequence b c :=
  ⟨h.groups, h.history.trans (history_deadLettered _ _ _), Nat.le_of_succ_le h.sequence_le,
    h.absent, h.present⟩

/-- Dead-lettering advances the queues behind its source and leaves the source and
everything with a shorter name alone. -/
theorem deadLetterVia_evolves {enqueue : Topic → Held → Exec Exn Broker Bool}
    (henqueue : EnqueueEvolves enqueue) (source : Topic) (message : Held) (b : Broker) :
    Evolves b.sequence b (deadLetterVia enqueue source message b).2 ∧
      ∀ t : Topic, t.length ≤ source.length →
        (deadLetterVia enqueue source message b).2.find t = b.find t := by
  cases hdead : b.deadLetters source with
  | false =>
      rw [deadLetterVia_closed hdead]
      exact ⟨.of_find rfl (history_close _ _ _) (Nat.le_refl _) fun t => rfl, fun t _ => rfl⟩
  | true =>
      cases hforensic : b.find (deadLetterTopic source) with
      | none =>
          rw [deadLetterVia_missing hdead hforensic]
          exact ⟨.refl _ _, fun t _ => rfl⟩
      | some forensic =>
          obtain ⟨hevolves, hframe⟩ := henqueue (deadLetterTopic source)
            (b.renumbered message) (b.deadLettered source message) forensic b.sequence
            hforensic (Nat.lt_succ_self _) (Nat.le_refl _) rfl
          rw [deadLetterVia_forward hdead hforensic]
          refine ⟨evolves_of_deadLettered hevolves, fun t ht => hframe t ?_⟩
          exact Nat.lt_of_le_of_lt ht (length_lt_deadLetterTopic source)

/-- Pushing to the back of a topic that has room. -/
theorem evolves_pushBack_of_room {b : Broker} {topic : Topic} {state : TopicState}
    {message : Held} {lo : Nat} (hfind : b.find topic = some state)
    (hroom : state.full = false) (hlo : lo < message.sequence)
    (hhi : message.sequence ≤ b.sequence) (hflag : message.redelivered = false) :
    Evolves lo b (b.pushBack topic message) := by
  refine (Evolves.refl lo b).pushBack (k := 0) hfind hfind (fun hpos => ?_) hlo hhi hflag
  have hlt : ¬ state.messages.length ≥ state.options.maxLength := by
    simpa [TopicState.full, hpos] using hroom
  rw [List.drop_zero]
  omega

theorem enqueueLocked_evolves (fuel : Nat) : EnqueueEvolves (enqueueLocked fuel) := by
  induction fuel with
  | zero =>
      intro topic message b state lo hfind hlo hhi hflag
      exact ⟨.refl lo b, fun t _ => rfl⟩
  | succ fuel ih =>
      intro topic message b state lo hfind hlo hhi hflag
      have hpush : ∀ (c : Broker) (t : Topic), t.length < topic.length →
          (c.pushBack topic message).find t = c.find t := by
        intro c t ht
        rw [find_pushBack, if_neg]
        rintro rfl
        exact Nat.lt_irrefl _ ht
      cases hfull : state.full with
      | false =>
          rw [enqueueLocked_room hfind hfull]
          exact ⟨evolves_pushBack_of_room hfind hfull hlo hhi hflag, hpush b⟩
      | true =>
          cases hpolicy : state.options.overflow with
          | rejectPublish =>
              rw [enqueueLocked_refused hfind hfull (.inl hpolicy)]
              exact ⟨.of_find rfl (history_close _ _ _) (Nat.le_refl _) fun t => rfl, fun t _ => rfl⟩
          | rejectPublishDlx =>
              cases hdead : state.options.deadLetter with
              | false =>
                  rw [enqueueLocked_refused hfind hfull (.inr ⟨hpolicy, hdead⟩)]
                  exact ⟨.of_find rfl (history_close _ _ _) (Nat.le_refl _) fun t => rfl, fun t _ => rfl⟩
              | true =>
                  rw [enqueueLocked_dlx hfind hfull hpolicy hdead]
                  obtain ⟨hevolves, hframe⟩ := deadLetterVia_evolves ih topic message b
                  refine ⟨(Evolves.refl lo b).trans hevolves ?_, fun t ht => hframe t ht.le⟩
                  omega
          | dropHead =>
              obtain ⟨evicted, rest, hmessages⟩ :=
                List.exists_cons_of_ne_nil (messages_ne_nil_of_full hfull)
              rw [enqueueLocked_dropHead hfind hfull hpolicy hmessages]
              have hdrop : ({ state with messages := rest } : TopicState) =
                  { state with messages := state.messages.drop 1 } := by rw [hmessages]; rfl
              have hpop : Evolves lo b _ := .pop hfind 1
              rw [← hdrop] at hpop
              -- what follows the removal of the head leaves this topic alone
              have hafter : ∀ c : Broker,
                  Evolves b.sequence (b.write topic { state with messages := rest }) c →
                  (∀ t : Topic, t.length ≤ topic.length →
                    c.find t = (b.write topic { state with messages := rest }).find t) →
                  Evolves lo b c ∧ Evolves lo b (c.pushBack topic message) ∧
                    ∀ t : Topic, t.length < topic.length → c.find t = b.find t := by
                intro c hevolves hframe
                have hc : Evolves lo b c := hpop.trans hevolves (by rw [sequence_write]; omega)
                have hself := hframe topic (Nat.le_refl _)
                rw [find_write_self, hdrop] at hself
                refine ⟨hc, hc.pushBack hfind hself (fun _ => ?_) hlo ?_ hflag, fun t ht => ?_⟩
                · simp [hmessages]
                · exact Nat.le_trans hhi hc.sequence_le
                · rw [hframe t ht.le, find_write_of_ne]
                  rintro rfl
                  exact Nat.lt_irrefl _ ht
              cases hdead : state.options.deadLetter with
              | false =>
                  obtain ⟨-, hpushed, hframe⟩ := hafter
                    ((b.write topic { state with messages := rest }).close evicted (.evicted topic))
                    (.of_find rfl (history_close _ _ _) (Nat.le_refl _) fun t => rfl)
                    fun t _ => rfl
                  exact ⟨hpushed, fun t ht => (hpush _ t ht).trans (hframe t ht)⟩
              | true =>
                  obtain ⟨hevolves, hframe⟩ := deadLetterVia_evolves ih topic evicted
                    (b.write topic { state with messages := rest })
                  obtain ⟨hc, hpushed, hframe⟩ := hafter _ hevolves hframe
                  rw [if_pos rfl]
                  rcases hrun : deadLetterVia (enqueueLocked fuel) topic evicted
                    (b.write topic { state with messages := rest }) with ⟨r, c⟩
                  rw [hrun] at hc hpushed hframe
                  cases r with
                  | ok => exact ⟨hpushed, fun t ht => (hpush _ t ht).trans (hframe t ht)⟩
                  | error e => exact ⟨hc, hframe⟩

/-! ### `publish` -/

theorem offer_evolves {b : Broker} {topic : Topic} (htopic : (b.find topic).isSome)
    (body : Bytes) : Evolves b.sequence b (offer topic body b).2 := by
  obtain ⟨state, hfind⟩ := Option.isSome_iff_exists.mp htopic
  have hevolves := (enqueueLocked_evolves b.topics.size topic (b.fresh body)
    (b.offered topic body) state b.sequence hfind (Nat.lt_succ_self _) (Nat.le_refl _) rfl).1
  exact ⟨hevolves.groups, hevolves.history.trans (history_offered _ _ _),
    Nat.le_of_succ_le hevolves.sequence_le, hevolves.absent, hevolves.present⟩

theorem offerAll_evolves {group : String} {routing : Routing} {key : String} {body : Bytes}
    (names : List Topic) {b : Broker} (hnames : ∀ name ∈ names, (b.find name).isSome)
    (accepted : Bool) :
    Evolves b.sequence b (offerAll group routing key body names accepted b).2 := by
  induction names generalizing b accepted with
  | nil => exact .refl _ b
  | cons name rest ih =>
      have hrest : ∀ name ∈ rest, (b.find name).isSome :=
        fun name hname => hnames name (List.mem_cons_of_mem _ hname)
      simp only [offerAll, Exec.get_bind]
      split
      · have hoffer := offer_evolves (hnames name List.mem_cons_self) body
        rw [Exec.bind_apply]
        rcases hrun : offer name body b with ⟨r, c⟩
        rw [hrun] at hoffer
        cases r with
        | error e => exact hoffer
        | ok stored =>
            have hrest' : ∀ name ∈ rest, (c.find name).isSome := by
              intro name hname
              rw [hoffer.find_isSome]
              exact hrest name hname
            exact hoffer.trans (ih hrest' _) hoffer.sequence_le
      · exact ih hrest accepted

/-- The broker in which `publish` makes its offers: `_topics[topic]` and
`_groups[group]` have created the entries they found missing. -/
def opened (b : Broker) (topic : Topic) : Broker :=
  let group := ((b.find topic).getD {}).options.group
  if group = "" then b.touch topic
  else { b with groups := b.groups.insertIfNew group .exact }

/-- Only a topic that did not exist comes into being. -/
theorem find_opened (b : Broker) (topic t : Topic) :
    (b.opened topic).find t = if topic = t then some ((b.find topic).getD {}) else b.find t := by
  rw [opened]
  split
  · exact find_touch b topic t
  · next hgroup =>
      split
      · next heq =>
          subst heq
          cases hfind : b.find topic with
          | none => simp [hfind] at hgroup
          | some state => exact hfind
      · rfl

@[simp] theorem sequence_opened (b : Broker) (topic : Topic) :
    (b.opened topic).sequence = b.sequence := by
  rw [opened]
  split <;> rfl

@[simp] theorem history_opened (b : Broker) (topic : Topic) :
    (b.opened topic).history = b.history := by
  rw [opened]
  split <;> rfl

theorem mem_keys_iff (b : Broker) (t : Topic) : t ∈ b.topics.keys ↔ (b.find t).isSome := by
  rw [Std.TreeMap.mem_keys, Std.TreeMap.mem_iff_isSome_getElem?]
  rfl

/-- A topic that exists leaves fuel for one turn of `enqueueLocked`. -/
theorem exists_fuel {b : Broker} {topic : Topic} (h : (b.find topic).isSome = true) :
    ∃ fuel, b.topics.size = fuel + 1 := by
  have hpos := List.length_pos_of_mem ((mem_keys_iff b topic).mpr h)
  rw [Std.TreeMap.length_keys] at hpos
  exact ⟨b.topics.size - 1, by omega⟩

/-- Two topics leave fuel for two. -/
theorem exists_fuel_two {b : Broker} {topic topic' : Topic} (hne : topic ≠ topic')
    (h : (b.find topic).isSome = true) (h' : (b.find topic').isSome = true) :
    ∃ fuel, b.topics.size = fuel + 1 + 1 := by
  have hpair : ({topic, topic'} : Finset Topic).card = 2 := Finset.card_pair hne
  have hsub : ({topic, topic'} : Finset Topic) ⊆ b.topics.keys.toFinset := by
    intro t ht
    rw [List.mem_toFinset, mem_keys_iff]
    rcases Finset.mem_insert.mp ht with rfl | ht
    · exact h
    · rw [Finset.mem_singleton.mp ht]
      exact h'
  have hle := (Finset.card_le_card hsub).trans (List.toFinset_card_le _)
  rw [Std.TreeMap.length_keys] at hle
  exact ⟨b.topics.size - 2, by omega⟩

theorem publish_evolves (topic : Topic) (body : Bytes) (route : String) (b : Broker) :
    Evolves b.sequence (b.opened topic) (publish topic body route b).2 := by
  rw [← sequence_opened b topic]
  simp only [publish, Exec.get_bind]
  split
  · next hgroup =>
      rw [opened, if_pos hgroup, Exec.set_bind]
      refine offer_evolves ?_ body
      rw [find_touch, if_pos rfl, Option.isSome_some]
  · next hgroup =>
      rw [opened, if_neg hgroup, Exec.set_bind]
      refine offerAll_evolves _ (fun name hname => ?_) true
      exact (mem_keys_iff b name).mp hname

end Broker

end Motus.InMemory
