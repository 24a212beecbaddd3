import Motus.InMemory.Undeclared
import Motus.InMemory.Redeclaration

set_option autoImplicit false

/-!
# What a refused declaration leaves behind

`ensureTopic` inserts what it does not find before it checks what it finds, as the
broker it stands for does: the group before the topic, and the forensic destination
before its source.  Nothing is taken back when a later check fails, and nothing that
was there is touched.
-/

namespace Motus.InMemory

open Motus.Foundation Motus.Transport

namespace Broker

/-- The same topics, with the same options, bindings and waiting messages, and the same
groups. -/
structure Unchanged (b b' : Broker) : Prop where
  topics : ∀ t, b'.find t = b.find t
  groups : ∀ group : String, b'.groups[group]? = b.groups[group]?

/-- A group once a declaration with these options has got to it. -/
theorem getElem?_groups_ensureGroup (options : TopicOptions) (b : Broker) (group : String) :
    (ensureGroup options b).2.groups[group]? =
      if options.group = group ∧ group ≠ "" then
        some ((b.groups[group]?).getD options.routing)
      else b.groups[group]? := by
  simp only [ensureGroup, Exec.get_bind]
  by_cases hempty : options.group = ""
  · rw [if_pos hempty, if_neg fun h => h.2 (h.1 ▸ hempty)]
    rfl
  · rw [if_neg hempty]
    cases hfound : b.groups[options.group]? with
    | none =>
        simp only [Exec.set_apply, Std.TreeMap.getElem?_insert, Std.LawfulEqCmp.compare_eq_iff_eq]
        by_cases heq : options.group = group
        · subst heq
          rw [if_pos rfl, if_pos ⟨rfl, hempty⟩, hfound, Option.getD_none]
        · rw [if_neg heq, if_neg fun h => heq h.1]
    | some routing =>
        have hsame : b.groups[group]? = if options.group = group ∧ group ≠ "" then
            some ((b.groups[group]?).getD options.routing) else b.groups[group]? := by
          split
          · next h => rw [← h.1, hfound, Option.getD_some]
          · rfl
        dsimp only
        split
        · exact hsame
        · exact hsame

/-- A refused declaration leaves the topics as they were. -/
theorem find_ensureTopic_error {topic : Topic} {options : TopicOptions} {b : Broker} {e : Exn}
    (h : (ensureTopic topic options b).1 = .error e) (t : Topic) :
    (ensureTopic topic options b).2.find t = b.find t := by
  obtain ⟨groups, ⟨hsame, -⟩ | ⟨-, hnew⟩⟩ := ensureTopic_apply topic options b
  · rw [hsame]
    rfl
  · rw [hnew] at h
    exact absurd h (by simp)

/-- The groups are left alone exactly when the one that is named is there. -/
theorem groups_unchanged_iff (topic : Topic) (options : TopicOptions) (b : Broker) :
    (∀ group : String, (ensureTopic topic options b).2.groups[group]? = b.groups[group]?) ↔
      (options.group ≠ "" → (b.groups[options.group]?).isSome = true) := by
  rw [groups_ensureTopic]
  constructor
  · intro hsame hgroup
    rw [← hsame, getElem?_groups_ensureGroup, if_pos ⟨rfl, hgroup⟩, Option.isSome_some]
  · intro hfound group
    rw [getElem?_groups_ensureGroup]
    split
    · next h =>
        obtain ⟨rfl, hgroup⟩ := h
        obtain ⟨routing, hrouting⟩ := Option.isSome_iff_exists.mp (hfound hgroup)
        rw [hrouting, Option.getD_some]
    · rfl

/-- The declaration agrees with the group and with the topic that it finds. -/
def Agrees (b : Broker) (topic : Topic) (options : TopicOptions) : Prop :=
  GroupAgrees b options ∧ ∀ state, b.find topic = some state → agrees state.options options = true

theorem ensureTopic_ok_iff (b : Broker) (topic : Topic) (options : TopicOptions) :
    (ensureTopic topic options b).1 = .ok () ↔ Agrees b topic options := by
  cases hfind : b.find topic with
  | some state =>
      rw [ensureTopic_eq_ok_iff hfind]
      refine and_congr_right fun _ => ⟨fun h state' hstate' => ?_, fun h => h state hfind⟩
      rw [← Option.some.inj (hfind.symm.trans hstate')]
      exact h
  | none =>
      refine ⟨fun h => ⟨(ensureGroup_eq_ok_iff b options).mp (ensureGroup_of_ensureTopic (.inl h)),
        fun state hstate => absurd (hfind.symm.trans hstate) (by simp)⟩, fun h => ?_⟩
      exact ensureTopic_eq_ok_of_none hfind ((ensureGroup_eq_ok_iff b options).mpr h.1)

/-! ## The two declarations of one call -/

/-- All that a refused `ensureTopic` leaves behind: what there was, the dead-letter group
and the empty forensic destination, if there is to be one, and the group of the topic. -/
structure Leaves (topic : Topic) (options : TopicOptions) (b b' : Broker) : Prop where
  topics : ∀ t state, b.find t = some state → b'.find t = some state
  groups : ∀ (group : String) (routing : Routing), b.groups[group]? = some routing →
    b'.groups[group]? = some routing
  newTopics : ∀ t state, b.find t = none → b'.find t = some state →
    options.deadLetter = true ∧ t = deadLetterTopic topic ∧
      state = declared t (forensicTopicOptions topic)
  newGroups : ∀ (group : String) (routing : Routing), b.groups[group]? = none →
    b'.groups[group]? = some routing →
      options.deadLetter = true ∧ group = kDeadLetterExchange ∧ routing = .exact ∨
        group ≠ "" ∧ group = options.group ∧ routing = options.routing

/-- Everything that the call gets to before a check fails is there already. -/
structure Found (b : Broker) (topic : Topic) (options : TopicOptions) : Prop where
  exchange : options.deadLetter = true → (b.groups[kDeadLetterExchange]?).isSome = true
  forensic : options.deadLetter = true →
    Agrees b (deadLetterTopic topic) (forensicTopicOptions topic) →
      (b.find (deadLetterTopic topic)).isSome = true
  group : (options.deadLetter = true →
      Agrees b (deadLetterTopic topic) (forensicTopicOptions topic)) →
    options.group ≠ "" → (b.groups[options.group]?).isSome = true

/-- One refused declaration. -/
theorem leaves_of_error {topic t : Topic} {options stored : TopicOptions} {b : Broker} {e : Exn}
    (h : (ensureTopic t stored b).1 = .error e)
    (hgroup : ∀ group, stored.group = group → group ≠ "" →
      options.deadLetter = true ∧ group = kDeadLetterExchange ∧ stored.routing = .exact ∨
        group ≠ "" ∧ group = options.group ∧ stored.routing = options.routing) :
    Leaves topic options b (ensureTopic t stored b).2 := by
  refine ⟨fun t' state hstate => (find_ensureTopic_error h t').trans hstate,
    keepsGroups_ensureTopic t stored b, fun t' state hnone hstate => ?_,
    fun group routing hnone hrouting => ?_⟩
  · rw [find_ensureTopic_error h, hnone] at hstate
    exact absurd hstate (by simp)
  · rw [groups_ensureTopic] at hrouting
    rcases groups_ensureGroup hrouting with hbefore | ⟨hne, rfl, rfl⟩
    · exact absurd (hnone.symm.trans hbefore) (by simp)
    · exact hgroup _ rfl hne

/-- The forensic destination is declared first. -/
theorem leaves_of_forensic {topic : Topic} {options : TopicOptions} {b : Broker}
    (hdead : options.deadLetter = true)
    (hok : (ensureTopic (deadLetterTopic topic) (forensicTopicOptions topic) b).1 = .ok ()) :
    Leaves topic options b
      (ensureTopic (deadLetterTopic topic) (forensicTopicOptions topic) b).2 := by
  refine ⟨fun t state hstate => ?_, keepsGroups_ensureTopic _ _ b, fun t state hnone hstate => ?_,
    fun group routing hnone hrouting => ?_⟩
  · by_cases heq : deadLetterTopic topic = t
    · subst heq
      rw [find_ensureTopic hok, hstate, Option.getD_some]
    · rw [find_ensureTopic_of_ne b heq, hstate]
  · by_cases heq : deadLetterTopic topic = t
    · subst heq
      rw [find_ensureTopic hok, hnone, Option.getD_none] at hstate
      exact ⟨hdead, rfl, (Option.some.inj hstate).symm⟩
    · rw [find_ensureTopic_of_ne b heq, hnone] at hstate
      exact absurd hstate (by simp)
  · rw [groups_ensureTopic] at hrouting
    rcases groups_ensureGroup hrouting with hbefore | ⟨-, rfl, rfl⟩
    · exact absurd (hnone.symm.trans hbefore) (by simp)
    · exact .inl ⟨hdead, rfl, rfl⟩

theorem Leaves.trans {topic : Topic} {options : TopicOptions} {b c b' : Broker}
    (h : Leaves topic options b c) (h' : Leaves topic options c b') : Leaves topic options b b' := by
  refine ⟨fun t state hstate => h'.topics t state (h.topics t state hstate),
    fun group routing hrouting => h'.groups group routing (h.groups group routing hrouting),
    fun t state hnone hstate => ?_, fun group routing hnone hrouting => ?_⟩
  · cases hmid : c.find t with
    | none => exact h'.newTopics t state hmid hstate
    | some between =>
        obtain rfl := Option.some.inj ((h'.topics t between hmid).symm.trans hstate)
        exact h.newTopics t between hnone hmid
  · cases hmid : c.groups[group]? with
    | none => exact h'.newGroups group routing hmid hrouting
    | some between =>
        obtain rfl := Option.some.inj ((h'.groups group between hmid).symm.trans hrouting)
        exact h.newGroups group between hnone hmid

theorem Leaves.refl (topic : Topic) (options : TopicOptions) (b : Broker) :
    Leaves topic options b b :=
  ⟨fun _ _ h => h, fun _ _ h => h, fun _ _ hnone h => absurd (hnone.symm.trans h) (by simp),
    fun _ _ hnone h => absurd (hnone.symm.trans h) (by simp)⟩

/-- A call that left nothing behind had left nothing behind half way. -/
theorem Unchanged.halfway {topic : Topic} {options : TopicOptions} {b c b' : Broker}
    (h : Unchanged b b') (hfirst : Leaves topic options b c) (hsecond : Leaves topic options c b') :
    Unchanged b c := by
  refine ⟨fun t => ?_, fun group => ?_⟩
  · cases hfind : b.find t with
    | some state => exact hfirst.topics t state hfind
    | none =>
        cases hmid : c.find t with
        | none => rfl
        | some state =>
            have hlast := (h.topics t).symm.trans (hsecond.topics t state hmid)
            exact absurd (hfind.symm.trans hlast) (by simp)
  · cases hfound : b.groups[group]? with
    | some routing => exact hfirst.groups group routing hfound
    | none =>
        cases hmid : c.groups[group]? with
        | none => rfl
        | some routing =>
            have hlast := (h.groups group).symm.trans (hsecond.groups group routing hmid)
            exact absurd (hfound.symm.trans hlast) (by simp)

theorem Unchanged.trans {b c b' : Broker} (h : Unchanged b c) (h' : Unchanged c b') :
    Unchanged b b' :=
  ⟨fun t => (h'.topics t).trans (h.topics t), fun group => (h'.groups group).trans (h.groups group)⟩

/-- A refused declaration of the topic itself changes nothing exactly when its group is
there. -/
theorem source_unchanged_iff {topic : Topic} {options : TopicOptions} {b : Broker} {e : Exn}
    (h : (ensureTopic topic options b).1 = .error e) :
    Unchanged b (ensureTopic topic options b).2 ↔
      (options.group ≠ "" → (b.groups[options.group]?).isSome = true) :=
  ⟨fun hsame => (groups_unchanged_iff topic options b).mp hsame.groups,
    fun hgroup => ⟨find_ensureTopic_error h, (groups_unchanged_iff topic options b).mpr hgroup⟩⟩

theorem Leaves.of_source {topic : Topic} {options : TopicOptions} {b : Broker} {e : Exn}
    (h : (ensureTopic topic options b).1 = .error e) :
    Leaves topic options b (ensureTopic topic options b).2 :=
  leaves_of_error h fun _ hgroup hne => .inr ⟨hne, hgroup.symm, rfl⟩

theorem Leaves.of_forensic_error {topic : Topic} {options : TopicOptions} {b : Broker} {e : Exn}
    (hdead : options.deadLetter = true)
    (h : (ensureTopic (deadLetterTopic topic) (forensicTopicOptions topic) b).1 = .error e) :
    Leaves topic options b
      (ensureTopic (deadLetterTopic topic) (forensicTopicOptions topic) b).2 :=
  leaves_of_error h fun _ hgroup _ => .inl ⟨hdead, hgroup.symm, rfl⟩

/-- The broker in which the topic itself is declared, if the call gets there. -/
def atSource (b : Broker) (topic : Topic) (options : TopicOptions) : Broker :=
  if options.deadLetter then
    (ensureTopic (deadLetterTopic topic) (forensicTopicOptions topic) b).2
  else b

/-- Where a call of `ensureTopic` is refused. -/
inductive RefusedAt (topic : Topic) (options : TopicOptions) (s : Site) (e : Exn) :
    Broker → Prop where
  | unconnected (h : s.self.connected = false) : RefusedAt topic options s e s.broker
  | forensic (h : s.self.connected = true) (hdead : options.deadLetter = true)
      (herror : (ensureTopic (deadLetterTopic topic) (forensicTopicOptions topic) s.broker).1 =
        .error e) :
      RefusedAt topic options s e
        (ensureTopic (deadLetterTopic topic) (forensicTopicOptions topic) s.broker).2
  | source (h : s.self.connected = true)
      (hforensic : options.deadLetter = true →
        (ensureTopic (deadLetterTopic topic) (forensicTopicOptions topic) s.broker).1 = .ok ())
      (herror : (ensureTopic topic options (s.broker.atSource topic options)).1 = .error e) :
      RefusedAt topic options s e
        (ensureTopic topic options (s.broker.atSource topic options)).2

theorem refusedAt_of_error {topic : Topic} {options : TopicOptions} {s s' : Site} {e : Exn}
    (h : InMemoryTransport.ensureTopic topic options s = (.error e, s')) :
    RefusedAt topic options s e s'.broker := by
  simp only [InMemoryTransport.ensureTopic, InMemoryTransport.ensureTopicForensic,
    InMemoryTransport.ensureTopicSource, Exec.get_bind, bind_assoc] at h
  by_cases hconnected : s.self.connected = false
  · rw [if_pos hconnected, Exec.bind_apply, Exec.throw_apply] at h
    obtain rfl : s = s' := congrArg Prod.snd h
    exact .unconnected hconnected
  · rw [if_neg hconnected] at h
    have hon := Bool.eq_true_of_not_eq_false hconnected
    by_cases hdead : options.deadLetter = true
    · have hat : s.broker.atSource topic options =
          (ensureTopic (deadLetterTopic topic) (forensicTopicOptions topic) s.broker).2 :=
        if_pos hdead
      rw [if_pos hdead, Exec.bind_apply, onBroker_apply] at h
      cases hfirst : (ensureTopic (deadLetterTopic topic) (forensicTopicOptions topic)
          s.broker).1 with
      | error e' =>
          rw [hfirst] at h
          obtain rfl : e' = e := Except.error.inj (congrArg Prod.fst h)
          rw [← congrArg (fun r => r.2.broker) h]
          exact .forensic hon hdead hfirst
      | ok =>
          rw [hfirst] at h
          simp only [onBroker_apply, ← hat] at h
          rw [← congrArg (fun r => r.2.broker) h]
          exact .source hon (fun _ => hfirst) (congrArg Prod.fst h)
    · have hat : s.broker.atSource topic options = s.broker := if_neg hdead
      rw [if_neg hdead, Exec.pure_bind', onBroker_apply, ← hat] at h
      rw [← congrArg (fun r => r.2.broker) h]
      exact .source hon (fun h => absurd h hdead) (congrArg Prod.fst h)

/-- The declaration of a forensic destination changes nothing exactly when its group is
there, and the destination too if it agrees with both. -/
theorem forensic_unchanged_iff (topic : Topic) (b : Broker) :
    Unchanged b (ensureTopic (deadLetterTopic topic) (forensicTopicOptions topic) b).2 ↔
      (b.groups[kDeadLetterExchange]?).isSome = true ∧
        (Agrees b (deadLetterTopic topic) (forensicTopicOptions topic) →
          (b.find (deadLetterTopic topic)).isSome = true) := by
  have hgroups := groups_unchanged_iff (deadLetterTopic topic) (forensicTopicOptions topic) b
  have hne : (forensicTopicOptions topic).group ≠ "" := by
    simp [forensicTopicOptions, kDeadLetterExchange]
  constructor
  · intro h
    refine ⟨hgroups.mp h.groups hne, fun hagrees => ?_⟩
    have hok := (ensureTopic_ok_iff b _ _).mpr hagrees
    rw [← h.topics, find_ensureTopic hok, Option.isSome_some]
  · rintro ⟨hexchange, hforensic⟩
    refine ⟨fun t => ?_, hgroups.mpr fun _ => hexchange⟩
    cases hrun : (ensureTopic (deadLetterTopic topic) (forensicTopicOptions topic) b).1 with
    | error e => exact find_ensureTopic_error hrun t
    | ok =>
        have hfound := hforensic ((ensureTopic_ok_iff b _ _).mp hrun)
        obtain ⟨forensic, hfind⟩ := Option.isSome_iff_exists.mp hfound
        by_cases heq : deadLetterTopic topic = t
        · subst heq
          rw [find_ensureTopic hrun, hfind, Option.getD_some]
        · exact find_ensureTopic_of_ne b heq _

/-- What a refused call has left behind, and when that is nothing. -/
theorem RefusedAt.leaves {topic : Topic} {options : TopicOptions} {s : Site} {e : Exn}
    {b' : Broker} (h : RefusedAt topic options s e b') :
    Leaves topic options s.broker b' ∧
      (Unchanged s.broker b' ↔ s.self.connected = false ∨ Found s.broker topic options) := by
  cases h with
  | unconnected hconnected =>
      exact ⟨.refl topic options s.broker, fun _ => .inl hconnected, fun _ => ⟨fun _ => rfl, fun _ => rfl⟩⟩
  | forensic hconnected hdead herror =>
      have hnot : ¬ Agrees s.broker (deadLetterTopic topic) (forensicTopicOptions topic) := by
        rw [← ensureTopic_ok_iff, herror]
        simp
      refine ⟨.of_forensic_error hdead herror, ?_⟩
      rw [forensic_unchanged_iff]
      constructor
      · intro h
        exact .inr ⟨fun _ => h.1, fun _ => h.2, fun h _ => absurd (h hdead) hnot⟩
      · intro h
        have hfound := h.resolve_left (by simp [hconnected])
        exact ⟨hfound.exchange hdead, hfound.forensic hdead⟩
  | source hconnected hforensic herror =>
      have hsource := Leaves.of_source herror
      have hready : options.deadLetter = true →
          Agrees s.broker (deadLetterTopic topic) (forensicTopicOptions topic) :=
        fun hdead => (ensureTopic_ok_iff s.broker _ _).mp (hforensic hdead)
      have hbefore : Leaves topic options s.broker (s.broker.atSource topic options) := by
        unfold atSource
        split
        · next hdead => exact leaves_of_forensic hdead (hforensic hdead)
        · exact .refl topic options s.broker
      have hbefore_iff : Unchanged s.broker (s.broker.atSource topic options) ↔
          (options.deadLetter = true → (s.broker.groups[kDeadLetterExchange]?).isSome = true ∧
            (s.broker.find (deadLetterTopic topic)).isSome = true) := by
        unfold atSource
        split
        · next hdead =>
            rw [forensic_unchanged_iff]
            exact ⟨fun h _ => ⟨h.1, h.2 (hready hdead)⟩, fun h => ⟨(h hdead).1, fun _ => (h hdead).2⟩⟩
        · next hdead =>
            exact ⟨fun _ h => absurd h hdead, fun _ => ⟨fun _ => rfl, fun _ => rfl⟩⟩
      refine ⟨hbefore.trans hsource, fun h => .inr ?_, fun h => ?_⟩
      · -- nothing was left half way, and nothing after that
        have hhalf := h.halfway hbefore hsource
        have hgroup := (groups_unchanged_iff topic options _).mp fun group =>
          (h.groups group).trans (hhalf.groups group).symm
        rw [hhalf.groups] at hgroup
        exact ⟨fun hdead => (hbefore_iff.mp hhalf hdead).1,
          fun hdead _ => (hbefore_iff.mp hhalf hdead).2, fun _ => hgroup⟩
      · have hfound := h.resolve_left (by simp [hconnected])
        have hhalf := hbefore_iff.mpr fun hdead =>
          ⟨hfound.exchange hdead, hfound.forensic hdead (hready hdead)⟩
        refine hhalf.trans ((source_unchanged_iff herror).mpr fun hne => ?_)
        rw [hhalf.groups]
        exact hfound.group hready hne

end Broker

/-! ## Runs -/

namespace System

open Broker

/-- Whatever the broker holds, an `ensureTopic` that throws leaves every topic, option,
binding, group and waiting message as it was, and behind it at most what it inserted
before the check that failed; it leaves nothing behind exactly when all of that was
there already. -/
theorem refused_ensureTopic (s s' : Site) (topic : Topic) (options : TopicOptions) (e : Exn)
    (h : InMemoryTransport.ensureTopic topic options s = (.error e, s')) :
    Leaves topic options s.broker s'.broker ∧
      (Unchanged s.broker s'.broker ↔
        s.self.connected = false ∨ Found s.broker topic options) :=
  (refusedAt_of_error h).leaves

/-- A topic that does not dead-letter. -/
def plainRun : List Action :=
  [.create, .connect 0, .ensureTopic 0 "jobs" { deadLetter := false }, .ensureTopicSource 0]

/-- A declaration of it that disagrees, and names a group that nobody has declared. -/
def mistaken : TopicOptions := { group := "work", routing := .broadcast }

/-- What it returns and leaves. -/
def mistakenCall : Except Exn Unit × Site :=
  InMemoryTransport.ensureTopic "jobs" mistaken
    ⟨(machine.run plainRun).broker, { connected := true }, 0⟩

/-- It is refused, a group and a forensic destination are left behind, and a declaration
that would have been accepted before is refused now. -/
theorem mistakenCall_lingers :
    (machine.run plainRun).transports.map (·.connected) = [true] ∧
      mistakenCall.1 ≠ .ok () ∧
      ¬ Unchanged (machine.run plainRun).broker mistakenCall.2.broker ∧
      (mistakenCall.2.broker.find "motus.dead-letter.jobs").isSome = true ∧
      (Broker.ensureTopic "mail" { group := "work" } (machine.run plainRun).broker).1 = .ok () ∧
      (Broker.ensureTopic "mail" { group := "work" } mistakenCall.2.broker).1 ≠ .ok () := by
  refine ⟨by decide +kernel, by decide +kernel, fun h => ?_, by decide +kernel,
    by decide +kernel, by decide +kernel⟩
  have hgroup := h.groups "work"
  exact absurd hgroup (by decide +kernel)

theorem refused_ensureTopic_mistaken :
    Leaves "jobs" mistaken (machine.run plainRun).broker mistakenCall.2.broker ∧
      (Unchanged (machine.run plainRun).broker mistakenCall.2.broker ↔
        ({ connected := true } : InMemoryTransport).connected = false ∨
          Found (machine.run plainRun).broker "jobs" mistaken) :=
  refused_ensureTopic ⟨(machine.run plainRun).broker, { connected := true }, 0⟩ mistakenCall.2
    "jobs" mistaken
    (.runtimeError ("cannot declare topic 'jobs': it already exists with different properties " ++
      "(a PRECONDITION_FAILED here means an existing destination was declared with different " ++
      "properties -- durable/shared/deleteWhenUnused/deadLetter/maxLength/overflow must match " ++
      "everywhere)"))
    (Prod.ext (by decide +kernel) rfl)

end System

end Motus.InMemory
