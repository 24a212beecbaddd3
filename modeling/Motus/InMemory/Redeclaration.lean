import Motus.InMemory.Routing

set_option autoImplicit false

/-!
# Declaring a topic that exists

`ensureTopic` stores the group and the route of a topic only when it creates it.  A
later declaration is compared with six of the stored options, neither of them the
group or the route, and is then forgotten.

A declaration that returns can therefore be without effect.  `InEffect` is the effect that
was asked for, seen by a sender into the group, and it is compared with what the broker
had stored before.
-/

namespace Motus.Transport

theorem matcherAt_self (words : List (List Char)) : matcherAt words words = true := by
  induction words with
  | nil => rfl
  | cons p pattern ih =>
      rw [matcherAt]
      split
      · refine List.any_eq_true.mpr ⟨pattern, ?_, ih⟩
        exact (List.mem_tails _ _).mpr (List.suffix_cons p pattern)
      · rw [if_neg fun h => h.2 rfl]
        exact ih

/-- Every binding matches itself as a key. -/
theorem routeMatches_self (binding : String) : routeMatches binding binding = true :=
  matcherAt_self _

end Motus.Transport

namespace Motus.InMemory

open Motus.Foundation Motus.Transport

namespace Broker

theorem bindingMatches_self (routing : Routing) (binding : String) :
    bindingMatches routing binding binding = true := by
  cases routing with
  | exact => exact beq_self_eq_true binding
  | pattern => exact routeMatches_self binding
  | broadcast => rfl

/-- A send into the group with this key offers a copy to the topic. -/
def SendOffers (b : Broker) (group : String) (routing : Routing) (key : String) (topic : Topic) :
    Prop :=
  ∀ body, ∃ copies, (offerAll group routing key body b.topics.keys true b).2.offersMade =
    b.offersMade ++ copies ∧ topic ∈ copies.map Prod.fst

/-- The declaration is in effect: every send into its group whose key matches the
route it asks for offers a copy to the topic. -/
def InEffect (b : Broker) (topic : Topic) (options : TopicOptions) : Prop :=
  ∀ key, bindingMatches options.routing (declared topic options).binding key = true →
    b.SendOffers options.group options.routing key topic

/-- The topic does not exist, or it is in the group already and its stored binding
matches every key that the route asked for matches. -/
def Takes (b : Broker) (topic : Topic) (options : TopicOptions) : Prop :=
  ∀ state, b.find topic = some state → state.options.group = options.group ∧
    ∀ key, bindingMatches options.routing (declared topic options).binding key = true →
      bindingMatches options.routing state.binding key = true

/-- A send that goes to the group is the loop that `SendOffers` runs. -/
theorem publish_of_group {b : Broker} {origin : Topic} {state : TopicState} {routing : Routing}
    (hfind : b.find origin = some state) (hgroup : state.options.group ≠ "")
    (hrouting : b.groups[state.options.group]? = some routing) (body : Bytes) (route : String) :
    publish origin body route b = offerAll state.options.group routing
      (if route = "" then state.binding else route) body b.topics.keys true b := by
  have hopened := opened_of_declared hfind hgroup hrouting
  rw [opened, hfind, Option.getD_some, if_neg hgroup] at hopened
  simp only [publish, Exec.get_bind, hfind, Option.getD_some, if_neg hgroup, Exec.set_bind]
  rw [hopened, hrouting, Option.getD_some]

theorem sendOffers_iff {b : Broker} (hgrouped : Grouped b) {group : String} (hgroup : group ≠ "")
    {routing : Routing} {key : String} {topic : Topic} :
    b.SendOffers group routing key topic ↔ topic ∈ b.destinations group routing key := by
  have hrun : ∀ body, ∃ offers : List Offer,
      (offerAll group routing key body b.topics.keys true b).2.offersMade =
        b.offersMade ++ offers.map (fun offer => (offer.topic, offer.copy)) ∧
      (offers.map fun offer => (offer.topic, offer.copy)).map Prod.fst =
        b.destinations group routing key := by
    intro body
    obtain ⟨offers, b', hrun, htopics, hturns⟩ :=
      @offerAll_turns group routing key body hgroup b.topics.keys b hgrouped true
    refine ⟨offers, by rw [hrun]; exact hturns.offersMade, ?_⟩
    rw [List.map_map]
    exact htopics
  constructor
  · intro h
    obtain ⟨copies, hcopies, hmem⟩ := h []
    obtain ⟨offers, hoffers, htopics⟩ := hrun []
    rw [← htopics, ← List.append_cancel_left (hcopies.symm.trans hoffers)]
    exact hmem
  · intro hmem body
    obtain ⟨offers, hoffers, htopics⟩ := hrun body
    exact ⟨_, hoffers, htopics ▸ hmem⟩

/-- What a declaration that was accepted leaves at its topic. -/
theorem find_ensureTopic {b : Broker} {topic : Topic} {options : TopicOptions}
    (h : (ensureTopic topic options b).1 = .ok ()) :
    (ensureTopic topic options b).2.find topic =
      some ((b.find topic).getD (declared topic options)) := by
  obtain ⟨groups, ⟨hsame, hfound⟩ | ⟨hnone, hnew⟩⟩ := ensureTopic_apply topic options b
  · obtain ⟨state, hfind⟩ := Option.isSome_iff_exists.mp (hfound h)
    rw [hsame, hfind, Option.getD_some]
    exact hfind
  · rw [hnew, find_write_self, hnone, Option.getD_none]

theorem find_ensureTopic_of_ne (b : Broker) {topic t : Topic} (hne : topic ≠ t)
    (options : TopicOptions) : (ensureTopic topic options b).2.find t = b.find t := by
  obtain ⟨groups, ⟨hsame, -⟩ | ⟨-, hnew⟩⟩ := ensureTopic_apply topic options b
  · rw [hsame]
    rfl
  · rw [hnew, find_write_of_ne _ hne]
    rfl

/-- An accepted declaration is in effect exactly when the topic could take it. -/
theorem inEffect_ensureTopic_iff {b : Broker} {topic : Topic} {options : TopicOptions}
    (hgroup : options.group ≠ "") (hgrouped : Grouped (ensureTopic topic options b).2)
    (h : (ensureTopic topic options b).1 = .ok ()) :
    InEffect (ensureTopic topic options b).2 topic options ↔ Takes b topic options := by
  have hstored := find_ensureTopic h
  have hself := bindingMatches_self options.routing (declared topic options).binding
  have hiff : ∀ key, (ensureTopic topic options b).2.SendOffers options.group options.routing key
      topic ↔ ((b.find topic).getD (declared topic options)).options.group = options.group ∧
        bindingMatches options.routing ((b.find topic).getD (declared topic options)).binding key =
          true := by
    intro key
    rw [sendOffers_iff hgrouped hgroup, mem_destinations, hstored]
    constructor
    · rintro ⟨state, heq, hmatch⟩
      rwa [Option.some.inj heq]
    · exact fun hmatch => ⟨_, rfl, hmatch⟩
  constructor
  · intro heffect state hfind
    rw [hfind, Option.getD_some] at hiff
    exact ⟨((hiff _).mp (heffect _ hself)).1, fun key hkey => ((hiff key).mp (heffect key hkey)).2⟩
  · intro htakes key hkey
    rw [hiff]
    cases hfind : b.find topic with
    | none => exact ⟨rfl, hkey⟩
    | some state => exact ⟨(htakes state hfind).1, (htakes state hfind).2 key hkey⟩

end Broker

open Broker InMemoryTransport

/-- An `ensureTopic` that returns has declared the forensic destination, if the topic
needs one, and then the topic. -/
theorem InMemoryTransport.ensureTopic_eq_ok {b : Broker} {t : InMemoryTransport} {i : Nat}
    {topic : Topic} {options : TopicOptions} {site : Site} (hgrouped : Grouped b)
    (h : InMemoryTransport.ensureTopic topic options ⟨b, t, i⟩ = (.ok (), site)) :
    ∃ c, Broker.ensureTopic topic options c = (.ok (), site.broker) ∧ Grouped c ∧
      c.find topic = b.find topic ∧ (options.deadLetter = true → c.ForensicReady topic) := by
  obtain ⟨_, middle, hforensic, hsource⟩ := Exec.bind_eq_ok h
  have hdeclared : Broker.ensureTopic topic options middle.broker = (.ok (), site.broker) := by
    rw [ensureTopicSource, onBroker_apply] at hsource
    have hresult := congrArg Prod.fst hsource
    have hbroker := congrArg (fun r => r.2.broker) hsource
    exact Prod.ext hresult hbroker
  refine ⟨middle.broker, hdeclared, ?_⟩
  simp only [ensureTopicForensic, Exec.get_bind] at hforensic
  split at hforensic
  · exact absurd (congrArg Prod.fst hforensic) (by simp)
  split at hforensic
  · rw [onBroker_apply] at hforensic
    have hmiddle := congrArg (fun r => r.2.broker) hforensic
    dsimp only at hmiddle
    rw [← hmiddle]
    exact ⟨hgrouped.ensureTopic _ _ fun hdead => absurd hdead Bool.false_ne_true,
      find_ensureTopic_of_ne b (deadLetterTopic_ne topic) _,
      fun _ => agrees_of_ensureTopic (congrArg Prod.fst hforensic)⟩
  · next hdead =>
      obtain rfl := congrArg Prod.snd hforensic
      exact ⟨hgrouped, rfl, fun h => absurd h hdead⟩

namespace System

/-- For every declaration into a group that returns, in every state of every run,
made in one go or with other threads between its two broker calls: it is in effect
exactly when the topic was new, or was in the group already under a binding that
matches everything the route asked for does.  A send to any topic of the group is
the loop that the declaration is in effect for. -/
theorem inEffect_iff_takes (actions : List Action) {topic : Topic} {options : TopicOptions}
    (hgroup : options.group ≠ "") :
    (∀ i t site, InMemoryTransport.ensureTopic topic options
        ⟨(machine.run actions).broker, t, i⟩ = (.ok (), site) →
      (InEffect site.broker topic options ↔ Takes (machine.run actions).broker topic options) ∧
      ∀ origin state body route, site.broker.find origin = some state →
        state.options.group = options.group →
        publish origin body route site.broker = offerAll options.group options.routing
          (if route = "" then state.binding else route) body site.broker.topics.keys true
          site.broker) ∧
    ∀ i t site, (machine.run actions).transports[i]? = some t →
      t.declaring = some (topic, options) →
      endEnsureTopic ⟨(machine.run actions).broker, t, i⟩ = (.ok (), site) →
        (InEffect site.broker topic options ↔
          Takes (machine.run actions).broker topic options) := by
  have hstand := (always_groupsStand actions).last.2
  refine ⟨fun i t site h => ?_, fun i t site hlookup hdeclaring h => ?_⟩
  · obtain ⟨c, hdeclared, hgrouped, hfind, hready⟩ :=
      InMemoryTransport.ensureTopic_eq_ok hstand.grouped h
    have hok : (Broker.ensureTopic topic options c).1 = .ok () := by rw [hdeclared]
    have hafter : (Broker.ensureTopic topic options c).2 = site.broker := by rw [hdeclared]
    have hgrouped' := hgrouped.ensureTopic topic options fun hdead _ => hready hdead
    refine ⟨?_, fun origin state body route horigin hsame => ?_⟩
    · rw [← hafter, inEffect_ensureTopic_iff hgroup hgrouped' hok, Takes, hfind]
      rfl
    · have hrouting := ensureGroup_declares (ensureGroup_of_ensureTopic (.inl hok)) hgroup
      rw [← groups_ensureTopic topic, hafter, ← hsame] at hrouting
      rw [publish_of_group horigin (hsame ▸ hgroup) hrouting, hsame]
  · have hready := hstand.declaring t (List.mem_of_getElem? hlookup) topic options hdeclaring
    have hgrouped' := hstand.grouped.ensureTopic topic options fun hdead _ => hready hdead
    simp only [endEnsureTopic, Exec.get_bind, hdeclaring, setSelf_bind, ensureTopicSource,
      onBroker_apply] at h
    have hafter := congrArg (fun r => r.2.broker) h
    dsimp only at hafter
    rw [← hafter]
    exact inEffect_ensureTopic_iff hgroup hgrouped' (congrArg Prod.fst h)

/-- A topic declared without a group, beside one in a group. -/
def regroupedRun : List Action :=
  [.create, .connect 0, .ensureTopic 0 "jobs" { deadLetter := false }, .ensureTopicSource 0,
    .ensureTopic 0 "mail" { deadLetter := false, group := "work", route := "job.*" },
    .ensureTopicSource 0]

/-- The second declaration of the run. -/
def regrouped : TopicOptions := { deadLetter := false, group := "work", route := "job.#" }

/-- What it returns and leaves. -/
def regroupedCall : Except Exn Unit × Site :=
  InMemoryTransport.ensureTopic "jobs" regrouped
    ⟨(machine.run regroupedRun).broker, { connected := true }, 0⟩

/-- It is accepted, and a send into the group with a matching key reaches the other topic
only. -/
theorem regroupedRun_ignored :
    regroupedCall.1 = .ok () ∧
      (publish "mail" [1] "job.new" regroupedCall.2.broker).2.offersMade.map Prod.fst = ["mail"] ∧
      ¬ InEffect regroupedCall.2.broker "jobs" regrouped := by
  refine ⟨by decide +kernel, by decide +kernel, fun h => ?_⟩
  obtain ⟨copies, hcopies, hmem⟩ := h "job.new" (by decide +kernel) [1]
  have hmade : (offerAll regrouped.group regrouped.routing "job.new" [1]
      regroupedCall.2.broker.topics.keys true regroupedCall.2.broker).2.offersMade.map Prod.fst =
        ["mail"] := by
    decide +kernel
  have hbefore : regroupedCall.2.broker.offersMade = [] := by decide +kernel
  rw [hcopies, hbefore, List.nil_append] at hmade
  rw [hmade] at hmem
  exact absurd hmem (by decide)

theorem inEffect_iff_takes_regroupedRun :
    InEffect regroupedCall.2.broker "jobs" regrouped ↔
      Takes (machine.run regroupedRun).broker "jobs" regrouped :=
  ((@inEffect_iff_takes regroupedRun "jobs" regrouped (by decide)).1 0
    { connected := true } regroupedCall.2 (Prod.ext (by decide +kernel) rfl)).1

end System

end Motus.InMemory
