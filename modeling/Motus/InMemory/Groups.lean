import Motus.InMemory.Standing

set_option autoImplicit false

/-!
# Groups

`ensureTopic` declares a group before it stores a topic in it, and declares the
forensic destination of a topic before the topic.  Nothing removes a group or
changes its routing kind, so every topic that is in a group finds both in place.

The routing of a send looks both up and has a default for each; with the invariant of
this module the defaults are never used for a topic that was declared.
-/

namespace Motus.InMemory

open Motus.Foundation Motus.Transport

namespace Broker

/-- Every group is still declared, with the routing kind it had. -/
def KeepsGroups (b b' : Broker) : Prop :=
  ∀ (group : String) (routing : Routing),
    b.groups[group]? = some routing → b'.groups[group]? = some routing

theorem KeepsGroups.refl (b : Broker) : KeepsGroups b b := fun _ _ h => h

theorem KeepsGroups.of_eq {b b' : Broker} (h : b'.groups = b.groups) : KeepsGroups b b' :=
  fun group routing hgroup => by rw [h, hgroup]

/-- The forensic destination of a topic is stored as `ensureTopic` declares it. -/
def ForensicReady (b : Broker) (topic : Topic) : Prop :=
  ∃ stored, b.optionsOf (deadLetterTopic topic) = some stored ∧
    agrees stored (forensicTopicOptions topic) = true

theorem ForensicReady.mono {b b' : Broker} {topic : Topic} (h : b.ForensicReady topic)
    (hextends : Extends b b') : b'.ForensicReady topic := by
  obtain ⟨stored, hstored, hagrees⟩ := h
  exact ⟨stored, hextends _ stored hstored, hagrees⟩

/-- Every topic in a group finds the group declared with its routing kind, and, when
it dead-letters, its forensic destination. -/
def Grouped (b : Broker) : Prop :=
  ∀ topic options, b.optionsOf topic = some options → options.group ≠ "" →
    b.groups[options.group]? = some options.routing ∧
      (options.deadLetter = true → b.ForensicReady topic)

theorem Grouped.of_sameTopics {b b' : Broker} (h : Grouped b) (hsame : SameTopics b b')
    (hgroups : KeepsGroups b b') : Grouped b' := by
  intro topic options hoptions hgroup
  rw [hsame topic] at hoptions
  obtain ⟨hrouting, hready⟩ := h topic options hoptions hgroup
  exact ⟨hgroups _ _ hrouting, fun hdead => (hready hdead).mono hsame.extends⟩

/-! ## `ensureTopic` -/

theorem keepsGroups_ensureGroup (options : TopicOptions) (b : Broker) :
    KeepsGroups b (ensureGroup options b).2 := by
  intro group routing hgroup
  simp only [ensureGroup, Exec.get_bind]
  split
  · exact hgroup
  · cases hdeclared : b.groups[options.group]? with
    | none =>
        simp only [Exec.set_apply]
        rw [Std.TreeMap.getElem?_insert, if_neg]
        · exact hgroup
        · intro heq
          rw [Std.LawfulEqCmp.compare_eq_iff_eq.mp heq, hgroup] at hdeclared
          exact absurd hdeclared (by simp)
    | some existing =>
        dsimp only
        split
        · exact hgroup
        · exact hgroup

/-- The declaration names no group, or one that does not exist or has its routing kind. -/
def GroupAgrees (b : Broker) (options : TopicOptions) : Prop :=
  options.group = "" ∨
    ∀ routing, b.groups[options.group]? = some routing → routing = options.routing

theorem ensureGroup_eq_ok_iff (b : Broker) (options : TopicOptions) :
    (ensureGroup options b).1 = .ok () ↔ GroupAgrees b options := by
  simp only [ensureGroup, Exec.get_bind, GroupAgrees]
  split
  · next hgroup => exact ⟨fun _ => .inl hgroup, fun _ => rfl⟩
  · next hgroup =>
      cases hdeclared : b.groups[options.group]? with
      | none => exact ⟨fun _ => .inr fun routing h => absurd h (by simp), fun _ => rfl⟩
      | some routing =>
          dsimp only
          split
          · next hsame => exact ⟨fun _ => .inr fun r h => Option.some.inj h ▸ hsame, fun _ => rfl⟩
          · next hdiffer =>
              refine ⟨fun h => absurd h (by simp), fun h => ?_⟩
              exact absurd (h.resolve_left hgroup routing rfl) hdiffer

/-- When the in-memory broker accepts the declaration of a topic that exists. -/
theorem ensureTopic_eq_ok_iff {b : Broker} {topic : Topic} {state : TopicState}
    (hfind : b.find topic = some state) (options : TopicOptions) :
    (ensureTopic topic options b).1 = .ok () ↔
      GroupAgrees b options ∧ agrees state.options options = true := by
  obtain ⟨r, groups, hgroup⟩ := ensureGroup_apply options b
  have hiff := ensureGroup_eq_ok_iff b options
  rw [hgroup] at hiff
  rw [ensureTopic, Exec.bind_apply, hgroup]
  cases r with
  | error e => exact ⟨fun h => absurd h (by simp), fun h => absurd (hiff.mpr h.1) (by simp)⟩
  | ok =>
      have hfind' : Broker.find { b with groups := groups } topic = some state := hfind
      simp only [Exec.get_bind, hfind']
      split
      · next hagrees => exact ⟨fun _ => ⟨hiff.mp rfl, hagrees⟩, fun _ => rfl⟩
      · next hagrees => exact ⟨fun h => absurd h (by simp), fun h => absurd h.2 hagrees⟩

/-- A group that `ensureGroup` accepts is declared with that routing kind. -/
theorem ensureGroup_declares {options : TopicOptions} {b : Broker}
    (h : (ensureGroup options b).1 = .ok ()) (hgroup : options.group ≠ "") :
    (ensureGroup options b).2.groups[options.group]? = some options.routing := by
  simp only [ensureGroup, Exec.get_bind, if_neg hgroup] at h ⊢
  cases hdeclared : b.groups[options.group]? with
  | none => exact Std.TreeMap.getElem?_insert_self
  | some existing =>
      rw [hdeclared] at h
      dsimp only at h ⊢
      split at h
      · next heq =>
          rw [if_pos heq, Exec.pure_apply, hdeclared, heq]
      · exact absurd h (by simp)

/-- A group that is declared afterwards was declared before, or is the one asked for. -/
theorem groups_ensureGroup {options : TopicOptions} {b : Broker} {group : String}
    {routing : Routing} (h : (ensureGroup options b).2.groups[group]? = some routing) :
    b.groups[group]? = some routing ∨
      options.group ≠ "" ∧ options.group = group ∧ options.routing = routing := by
  simp only [ensureGroup, Exec.get_bind] at h
  split at h
  · exact .inl h
  · next hgroup =>
      cases hdeclared : b.groups[options.group]? with
      | none =>
          rw [hdeclared] at h
          simp only [Exec.set_apply, Std.TreeMap.getElem?_insert] at h
          split at h
          · next heq =>
              exact .inr ⟨hgroup, Std.LawfulEqCmp.compare_eq_iff_eq.mp heq, Option.some.inj h⟩
          · exact .inl h
      | some existing =>
          rw [hdeclared] at h
          dsimp only at h
          split at h
          · exact .inl h
          · exact .inl h

/-- A new topic is declared as soon as its group is. -/
theorem ensureTopic_eq_ok_of_none {topic : Topic} {options : TopicOptions} {b : Broker}
    (hfind : b.find topic = none) (h : (ensureGroup options b).1 = .ok ()) :
    (ensureTopic topic options b).1 = .ok () := by
  obtain ⟨r, groups, hgroup⟩ := ensureGroup_apply options b
  rw [hgroup] at h
  obtain rfl : r = .ok () := h
  have hfind' : Broker.find { b with groups := groups } topic = none := hfind
  rw [ensureTopic, Exec.bind_ok hgroup]
  simp only [Exec.get_bind, hfind', Exec.set_apply]

/-- The groups after a declaration are those that `ensureGroup` left. -/
theorem groups_ensureTopic (topic : Topic) (options : TopicOptions) (b : Broker) :
    (ensureTopic topic options b).2.groups = (ensureGroup options b).2.groups := by
  rw [ensureTopic, Exec.bind_apply]
  rcases ensureGroup options b with ⟨r, c⟩
  cases r with
  | error e => rfl
  | ok =>
      simp only [Exec.get_bind]
      cases c.find topic with
      | none => rfl
      | some existing =>
          dsimp only
          split <;> rfl

/-- A declaration that returned, or that created its topic, got past its group. -/
theorem ensureGroup_of_ensureTopic {topic : Topic} {options : TopicOptions} {b : Broker}
    (h : (ensureTopic topic options b).1 = .ok () ∨
      b.optionsOf topic = none ∧ (ensureTopic topic options b).2.optionsOf topic = some options) :
    (ensureGroup options b).1 = .ok () := by
  obtain ⟨r, groups, hgroup⟩ := ensureGroup_apply options b
  rw [ensureTopic, Exec.bind_apply, hgroup] at h
  rw [hgroup]
  cases r with
  | ok => rfl
  | error e =>
      rcases h with h | ⟨hnone, hsome⟩
      · exact absurd h (by simp)
      · exact absurd (hnone.symm.trans hsome) (by simp)

theorem agrees_self (options : TopicOptions) : agrees options options = true := by
  simp [agrees]

/-- A topic that was declared is stored with options that agree. -/
theorem agrees_of_ensureTopic {topic : Topic} {options : TopicOptions} {b : Broker}
    (h : (ensureTopic topic options b).1 = .ok ()) :
    ∃ stored, (ensureTopic topic options b).2.optionsOf topic = some stored ∧
      agrees stored options = true := by
  obtain ⟨r, groups, hgroup⟩ := ensureGroup_apply options b
  rw [ensureTopic, Exec.bind_apply, hgroup] at h ⊢
  cases r with
  | error e => exact absurd h (by simp)
  | ok =>
      have hsame : Broker.find { b with groups := groups } topic = b.find topic := rfl
      simp only [Exec.get_bind, hsame] at h ⊢
      cases hfind : b.find topic with
      | none => exact ⟨options, optionsOf_of_find (find_write_self _ _ _), agrees_self options⟩
      | some existing =>
          rw [hfind] at h
          dsimp only at h ⊢
          split at h
          · next hagrees =>
              rw [if_pos hagrees]
              exact ⟨existing.options, optionsOf_of_find hfind, hagrees⟩
          · exact absurd h (by simp)

theorem keepsGroups_ensureTopic (topic : Topic) (options : TopicOptions) (b : Broker) :
    KeepsGroups b (ensureTopic topic options b).2 := by
  intro group routing hgroup
  rw [groups_ensureTopic]
  exact keepsGroups_ensureGroup options b group routing hgroup

theorem Grouped.ensureTopic {b : Broker} (h : Grouped b) (topic : Topic) (options : TopicOptions)
    (hready : options.deadLetter = true → options.group ≠ "" → b.ForensicReady topic) :
    Grouped (ensureTopic topic options b).2 := by
  have hextends := extends_ensureTopic topic options b
  intro t stored hstored hgroup
  rcases optionsOf_ensureTopic topic options b t with hsame | ⟨rfl, hnone, hnew⟩
  · rw [hsame] at hstored
    obtain ⟨hrouting, hforensic⟩ := h t stored hstored hgroup
    exact ⟨keepsGroups_ensureTopic topic options b _ _ hrouting,
      fun hdead => (hforensic hdead).mono hextends⟩
  · obtain rfl := Option.some.inj (hnew.symm.trans hstored)
    refine ⟨?_, fun hdead => (hready hdead hgroup).mono hextends⟩
    rw [groups_ensureTopic]
    exact ensureGroup_declares (ensureGroup_of_ensureTopic (.inr ⟨hnone, hnew⟩)) hgroup

/-! ## Everything else -/

/-- Inserting a key that is there changes nothing. -/
theorem insertIfNew_of_mem {α β : Type} {cmp : α → α → Ordering} {m : Std.TreeMap α β cmp}
    {k : α} (h : k ∈ m) (v : β) : m.insertIfNew k v = m := by
  obtain ⟨⟨inner, wf⟩⟩ := m
  simp only [Std.TreeMap.insertIfNew, Std.DTreeMap.insertIfNew,
    Std.DTreeMap.Internal.Impl.insertIfNew]
  congr 2
  split
  · rfl
  · next hnot =>
      have hcontains : @Std.DTreeMap.Internal.Impl.contains α _ ⟨cmp⟩ k inner = true := h
      rw [hcontains] at hnot
      exact absurd hnot (by simp)

/-- A publish into a declared group finds nothing to create. -/
theorem opened_of_declared {b : Broker} {topic : Topic} {state : TopicState} {routing : Routing}
    (hfind : b.find topic = some state) (hgroup : state.options.group ≠ "")
    (hrouting : b.groups[state.options.group]? = some routing) : b.opened topic = b := by
  have hmem : state.options.group ∈ b.groups := by
    rw [Std.TreeMap.mem_iff_isSome_getElem?, hrouting, Option.isSome_some]
  rw [opened, hfind, Option.getD_some, if_neg hgroup, insertIfNew_of_mem hmem]

theorem keepsGroups_opened (b : Broker) (topic : Topic) : KeepsGroups b (b.opened topic) := by
  intro group routing hgroup
  rw [opened]
  split
  · exact hgroup
  · simp only [Std.TreeMap.getElem?_insertIfNew]
    rw [if_neg, hgroup]
    rintro ⟨heq, hnot⟩
    rw [Std.LawfulEqCmp.compare_eq_iff_eq.mp heq, Std.TreeMap.mem_iff_isSome_getElem?, hgroup] at hnot
    exact hnot rfl

theorem keepsGroups_publish (topic : Topic) (body : Bytes) (route : String) (b : Broker) :
    KeepsGroups b (publish topic body route b).2 := by
  intro group routing hgroup
  rw [(publish_evolves topic body route b).groups]
  exact keepsGroups_opened b topic group routing hgroup

/-- A topic that `publish` creates is in no group. -/
theorem Grouped.publish {b : Broker} (h : Grouped b) (topic : Topic) (body : Bytes)
    (route : String) : Grouped (publish topic body route b).2 := by
  have hgroups := keepsGroups_publish topic body route b
  have hextends := extends_publish topic body route b
  intro t options hoptions hgroup
  have hbefore : b.optionsOf t = some options := by
    rw [optionsOf_publish] at hoptions
    split at hoptions
    · next heq =>
        subst heq
        cases hfind : b.optionsOf topic with
        | some stored => rwa [hfind, Option.getD_some] at hoptions
        | none =>
            rw [hfind, Option.getD_none] at hoptions
            exact absurd (congrArg TopicOptions.group (Option.some.inj hoptions)).symm hgroup
    · exact hoptions
  obtain ⟨hrouting, hready⟩ := h t options hbefore hgroup
  exact ⟨hgroups _ _ hrouting, fun hdead => (hready hdead).mono hextends⟩

theorem groups_performed (b : Broker) (topic : Topic) (message : Held) (d : Disposition) :
    (b.performed topic message d).groups = b.groups := by
  cases d with
  | ack => rfl
  | requeue => rfl
  | deferred => rfl
  | reject => exact (deadLetterVia_evolves (enqueueLocked_evolves _) topic message b).1.groups

theorem groups_putBackAll (b : Broker) (i : Nat) (topic : Topic) (messages : List Held) :
    (b.putBackAll i topic messages).groups = b.groups := by
  induction messages with
  | nil => rfl
  | cons message rest ih => exact ih

theorem groups_purge (topic : Topic) (b : Broker) : (purge topic b).2.groups = b.groups := by
  simp only [purge, Exec.get_bind]
  cases b.find topic <;> rfl

end Broker

open Broker InMemoryTransport

/-! ## Runs -/

theorem SiteEffect.keepsGroups {i : Nat} {a : Action} {b b' : Broker} {t t' : InMemoryTransport}
    (heffect : SiteEffect i a b t b' t') : KeepsGroups b b' := by
  cases heffect with
  | quiet => exact .refl b
  | declaredForensic topic options => exact keepsGroups_ensureTopic _ _ b
  | declared topic options hdeclaring => exact keepsGroups_ensureTopic topic options b
  | published topic payload options => exact keepsGroups_publish topic payload options.route b
  | subscribed topic => exact .refl b
  | purged topic => exact .of_eq (groups_purge topic b)
  | delivered state message rest => exact .of_eq rfl
  | handled message d => exact .of_eq (groups_performed _ t.topic message d)
  | settled tag message d => exact .of_eq (groups_performed _ t.topic message d)
  | left => exact .of_eq (groups_putBackAll b i t.topic _)

/-- What a call leaves of the declarations that are still to come. -/
theorem SiteEffect.declaring {i : Nat} {a : Action} {b b' : Broker} {t t' : InMemoryTransport}
    (heffect : SiteEffect i a b t b' t') {topic : Topic} {options : TopicOptions}
    (h : t'.declaring = some (topic, options)) (hdead : options.deadLetter = true) :
    t.declaring = some (topic, options) ∨ b'.ForensicReady topic := by
  have hkept : ∀ v : InMemoryTransport, v.Kept t' → v.declaring = t.declaring →
      t.declaring = some (topic, options) := by
    intro v hv hsame
    rcases hv.declaring _ h with hd | hd
    · exact hsame ▸ hd
    · exact absurd (hdead.symm.trans hd) (by simp)
  cases heffect with
  | quiet hk => exact .inl (hkept t hk rfl)
  | declaredForensic topic' options' hk hbegun =>
      rcases hbegun with hbegun | ⟨hbegun, hok⟩
      · exact .inl (hbegun ▸ h)
      · obtain ⟨rfl, rfl⟩ := Prod.mk.inj (Option.some.inj (hbegun.symm.trans h))
        exact .inr (agrees_of_ensureTopic hok)
  | declared topic' options' hd hk => exact .inl (hkept t hk rfl)
  | published topic' payload options' ha hp hk => exact .inl (hkept t hk rfl)
  | subscribed topic' => exact .inl h
  | purged topic' => exact .inl h
  | delivered state message rest _ _ _ _ _ hk => exact .inl (hkept t hk rfl)
  | handled message d _ _ hk => exact .inl (hkept t hk rfl)
  | settled tag message d _ _ _ hk => exact .inl (hkept t hk rfl)
  | left _ _ _ _ _ hd => exact .inl (hd ▸ h)

namespace System

/-- The broker is grouped, and a second half of `ensureTopic` that is still to come
finds the forensic destination that the first half declared. -/
structure GroupsStand (s : System) : Prop where
  grouped : Grouped s.broker
  declaring : ∀ t ∈ s.transports, ∀ topic options, t.declaring = some (topic, options) →
    options.deadLetter = true → s.broker.ForensicReady topic

theorem groupsStand_init : GroupsStand machine.init := by
  refine ⟨fun topic options h => ?_, fun t ht => ?_⟩
  · exact absurd h (by simp [machine, optionsOf, find])
  · exact absurd ht (by simp [machine])

theorem GroupsStand.step {s : System} (h : GroupsStand s) (hstanding : Standing s) (a : Action) :
    GroupsStand (s.step a) := by
  have hextends := hstanding.extends a
  have heffect := step_effect s a
  generalize s.step a = s' at hextends heffect ⊢
  cases heffect with
  | nothing hback => exact h
  | created haction =>
      refine ⟨h.grouped, fun t ht topic options hdeclaring hdead => ?_⟩
      rcases List.mem_append.mp ht with ht | ht
      · exact h.declaring t ht topic options hdeclaring hdead
      · rw [List.mem_singleton.mp ht] at hdeclaring
        exact absurd hdeclaring (by simp)
  | @site i t t' b' haction hlookup hsite =>
      have ht : t ∈ s.transports := List.mem_of_getElem? hlookup
      refine ⟨?_, fun u hu topic options hdeclaring hdead => ?_⟩
      · rcases hsite.topics (hstanding.anchored t ht) with
          hsame | ⟨topic, payload, options, -, -, rfl⟩ | ⟨topic, rfl⟩ | ⟨topic, options, hd, rfl⟩
        · exact h.grouped.of_sameTopics hsame hsite.keepsGroups
        · exact h.grouped.publish topic payload options.route
        · exact h.grouped.ensureTopic _ _ fun hdead => absurd hdead Bool.false_ne_true
        · exact h.grouped.ensureTopic topic options fun hdead _ =>
            h.declaring t ht topic options hd hdead
      · rcases List.mem_or_eq_of_mem_set hu with hu | rfl
        · exact (h.declaring u hu topic options hdeclaring hdead).mono hextends
        · rcases hsite.declaring hdeclaring hdead with hbefore | hready
          · exact (h.declaring t ht topic options hbefore hdead).mono hextends
          · exact hready

/-- In every state of every run the topics of a group find it declared. -/
theorem always_groupsStand (actions : List Action) :
    machine.Always (fun s => Standing s ∧ GroupsStand s) actions :=
  .of_step actions (fun _ a h => ⟨h.1.step a, h.2.step h.1 a⟩) ⟨standing_init, groupsStand_init⟩

end System

end Motus.InMemory
