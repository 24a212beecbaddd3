import Motus.Publishing.Producer
import Motus.InMemory.Declarations
import Motus.InMemory.Order
import Motus.InMemory.Refusal

set_option autoImplicit false

/-!
# Either side can start first

`Producer::declareTopic` and `Consumer::start` both declare their topic, and both go
through `checkTopicOptions`, which lets only the group, the route and the routing kind of
a declaration differ from the defaults.  So on the in-memory backend none of them can
contradict another, in whichever order the two sides start and whatever else happens
meanwhile.
-/

namespace Motus.Publishing

open Motus.Foundation Motus.Transport

/-- `Producer::declareTopic`; `reportsDepth` is `Capabilities::topicDepth`. -/
def Producer.declareTopic {σ : Type} (caps : Capabilities)
    (ensureTopic : Topic → TopicOptions → Exec Exn σ Unit) (reportsDepth : Bool) (topicDepth : Topic → Exec Exn σ Nat)
    (topic : Topic) (options : TopicOptions) (allowAsymmetric : Bool) : Exec Exn σ Nat := do
  match checkTopicOptions caps options allowAsymmetric with
  | .error e => throw e
  | .ok _ => do
      ensureTopic topic options
      if reportsDepth then topicDepth topic else pure 0

end Motus.Publishing

namespace Motus.Consumer

open Motus.Foundation Motus.Transport

/-- `Consumer::start`, in one piece. -/
def start {σ : Type} (caps : Capabilities) (ensureTopic : Topic → TopicOptions → Exec Exn σ Unit)
    (subscribe : Topic → Bool → Exec Exn σ Unit) (topic : Topic) (options : TopicOptions)
    (allowAsymmetric : Bool) : Exec Exn σ Unit := do
  match checkTopicOptions caps options allowAsymmetric with
  | .error e => throw e
  | .ok _ => do
      ensureTopic topic options
      subscribe topic true

end Motus.Consumer

namespace Motus.InMemory

open Motus.Foundation Motus.Transport Motus.Publishing

namespace InMemoryTransport

/-- `declareTopic` over an in-memory transport. -/
def declareTopic (topic : Topic) (options : TopicOptions) (allowAsymmetric : Bool) : Method Nat :=
  Producer.declareTopic inMemoryCapabilities InMemoryTransport.ensureTopic true
    InMemoryTransport.topicDepth topic options allowAsymmetric

/-- `start` over an in-memory transport. -/
def startConsumer (topic : Topic) (options : TopicOptions) (allowAsymmetric : Bool) :
    Method Unit :=
  Motus.Consumer.start inMemoryCapabilities InMemoryTransport.ensureTopic
    InMemoryTransport.subscribe topic options allowAsymmetric

/-! ## What a transport is in the middle of declaring -/

/-- The method begins no declaration. -/
def BeginsNone {α : Type} (x : Method α) : Prop :=
  ∀ site, (x site).2.self.declaring = site.self.declaring ∨ (x site).2.self.declaring = none

theorem beginsNone_connect : BeginsNone connect := fun _ => .inl rfl

theorem beginsNone_close : BeginsNone InMemoryTransport.close := by
  rintro ⟨b, t, i⟩
  obtain ⟨outstanding, -, hreturn⟩ := returnOutstanding_apply i b t
  rw [InMemoryTransport.close, Exec.bind_ok hreturn]
  exact .inl rfl

theorem beginsNone_destroy : BeginsNone destroy := by
  rintro ⟨b, t, i⟩
  obtain ⟨outstanding, -, hreturn⟩ := returnOutstanding_apply i b t
  have htry : (tryCatch returnOutstanding fun _ => pure () : Method Unit) ⟨b, t, i⟩ =
      (.ok (), ⟨b.putBackAll i t.topic t.unresolved, { t with outstanding := outstanding }, i⟩) := by
    rw [Exec.tryCatch_apply, hreturn]
  rw [destroy, Exec.bind_ok htry]
  exact .inl rfl

theorem beginsNone_endEnsureTopic : BeginsNone endEnsureTopic := by
  rintro ⟨b, t, i⟩
  unfold endEnsureTopic
  rw [Exec.get_bind]
  cases hdeclaring : t.declaring with
  | none => exact .inr hdeclaring
  | some declaration => exact .inr rfl

theorem beginsNone_send (topic : Topic) (payload : Bytes) (options : SendOptions) :
    BeginsNone (InMemoryTransport.send topic payload options) := by
  rintro ⟨b, t, i⟩
  unfold InMemoryTransport.send
  rw [Exec.get_bind]
  split
  · exact .inl rfl
  split
  · exact .inl rfl
  rw [Exec.bind_apply, onBroker_apply]
  rcases Broker.publish topic payload options.route b with ⟨_ | _, _⟩ <;> exact .inl rfl

theorem beginsNone_subscribe (topic : Topic) (handler : Bool) :
    BeginsNone (InMemoryTransport.subscribe topic handler) := by
  rintro ⟨b, t, i⟩
  rcases subscribe_run i b t topic handler with ⟨e, hrun⟩ | ⟨-, -, -, hrun⟩
  · exact .inl (by rw [hrun])
  · exact .inl (by rw [hrun])

theorem beginsNone_purgeTopic (topic : Topic) :
    BeginsNone (InMemoryTransport.purgeTopic topic) := by
  rintro ⟨b, t, i⟩
  unfold InMemoryTransport.purgeTopic
  rw [Exec.get_bind]
  split <;> exact .inl rfl

theorem beginsNone_pumpTurn : BeginsNone pumpTurn := by
  rintro ⟨b, t, i⟩
  rcases pumpTurn_run i b t with ⟨hrun, -⟩ | ⟨-, -, -, state, message, rest, -, -, hrun⟩
  · exact .inl (by rw [hrun])
  · exact .inl (by rw [hrun]; rfl)

theorem beginsNone_endPump (outcome : HandlerOutcome) : BeginsNone (endPump outcome) := by
  rintro ⟨b, t, i⟩
  cases hhandling : t.handling with
  | none => exact .inl (by rw [endPump_run_none i b t outcome hhandling])
  | some message =>
      cases outcome with
      | threw what => exact .inl (by rw [endPump_run_threw i b t what hhandling])
      | returned d =>
          by_cases hd : d = .deferred
          · subst hd
            exact .inl (by rw [endPump_run_deferred i b t hhandling])
          · obtain ⟨stats, hrun⟩ := endPump_final i b t hd hhandling
            exact .inl (by rw [hrun])

theorem beginsNone_settle (tag : Nat) (d : Disposition) :
    BeginsNone (InMemoryTransport.settle tag d) := by
  rintro ⟨b, t, i⟩
  by_cases hfinal : t.connected = true ∧ d ≠ .deferred ∧ ∃ message, t.outstanding[tag]? = some message
  · obtain ⟨hconnected, hd, message, hmessage⟩ := hfinal
    obtain ⟨stats, hrun⟩ := settle_final i b t hd hconnected hmessage
    exact .inl (by rw [hrun])
  · refine .inl ?_
    simp only [InMemoryTransport.settle, Exec.get_bind]
    split
    · rfl
    · next hconnected =>
        split
        · rfl
        · next hd =>
            cases hmessage : t.outstanding[tag]? with
            | none => rfl
            | some message =>
                exact absurd ⟨by simpa using hconnected, hd, message, hmessage⟩ hfinal

theorem declaring_beginEnsureTopic (topic : Topic) (options : TopicOptions) (site : Site) :
    (beginEnsureTopic topic options site).2.self.declaring = site.self.declaring ∨
      (beginEnsureTopic topic options site).2.self.declaring = some (topic, options) := by
  obtain ⟨b, t, i⟩ := site
  simp only [beginEnsureTopic, ensureTopicForensic, Exec.get_bind, bind_assoc]
  split
  · exact .inl rfl
  split
  · rw [Exec.bind_apply, onBroker_apply]
    rcases Broker.ensureTopic (deadLetterTopic topic) (forensicTopicOptions topic) b
      with ⟨_ | _, _⟩
    · exact .inl rfl
    · exact .inr rfl
  · exact .inr rfl

end InMemoryTransport

open InMemoryTransport

namespace System

/-- The call of a transport begins no declaration. -/
theorem declaring_call {α : Type} {s : System} {i j : Nat} {may : InMemoryTransport → Bool}
    {x : Method α} (hx : BeginsNone x) {u : InMemoryTransport} {d : Declaration}
    (hlookup : (s.call i may x).transports[j]? = some u) (hd : u.declaring = some d) :
    ∃ t, s.transports[j]? = some t ∧ t.declaring = some d := by
  unfold System.call at hlookup
  cases ht : s.transports[i]? with
  | none => exact ⟨u, by simpa only [ht] using hlookup, hd⟩
  | some t =>
      simp only [ht] at hlookup
      split at hlookup
      · by_cases heq : i = j
        · subst heq
          have hlt : i < s.transports.length := (List.getElem?_eq_some_iff.mp ht).1
          rw [List.getElem?_set_self hlt] at hlookup
          obtain rfl := Option.some.inj hlookup
          refine ⟨t, ht, ?_⟩
          rcases hx ⟨s.broker, t, i⟩ with hsame | hnone
          · exact hsame.symm.trans hd
          · rw [hnone] at hd
            exact absurd hd (by simp)
        · rw [List.getElem?_set_ne heq] at hlookup
          exact ⟨u, hlookup, hd⟩
      · exact ⟨u, hlookup, hd⟩

/-- A transport is in the middle of a declaration that it was in before or that it has
just begun. -/
theorem declaring_step {s : System} {a : Action} {j : Nat} {u : InMemoryTransport}
    {d : Declaration} (hlookup : (s.step a).transports[j]? = some u)
    (hd : u.declaring = some d) :
    (∃ t, s.transports[j]? = some t ∧ t.declaring = some d) ∨ a = .ensureTopic j d.1 d.2 := by
  cases a with
  | create =>
      left
      have happend : (s.transports ++ [({} : InMemoryTransport)])[j]? = some u := hlookup
      rw [List.getElem?_append] at happend
      split at happend
      · exact ⟨u, happend, hd⟩
      · obtain rfl := List.mem_singleton.mp (List.mem_of_getElem? happend)
        exact absurd hd (by simp)
  | connect i => exact .inl (declaring_call beginsNone_connect hlookup hd)
  | close i => exact .inl (declaring_call beginsNone_close hlookup hd)
  | destroy i => exact .inl (declaring_call beginsNone_destroy hlookup hd)
  | ensureTopicSource i => exact .inl (declaring_call beginsNone_endEnsureTopic hlookup hd)
  | send i topic payload options =>
      exact .inl (declaring_call (beginsNone_send topic payload options) hlookup hd)
  | subscribe i topic handler =>
      exact .inl (declaring_call (beginsNone_subscribe topic handler) hlookup hd)
  | purgeTopic i topic => exact .inl (declaring_call (beginsNone_purgeTopic topic) hlookup hd)
  | pump i => exact .inl (declaring_call beginsNone_pumpTurn hlookup hd)
  | handlerReturns i outcome =>
      exact .inl (declaring_call (beginsNone_endPump outcome) hlookup hd)
  | settle i tag disposition =>
      exact .inl (declaring_call (beginsNone_settle tag disposition) hlookup hd)
  | ensureTopic i topic options =>
      cases ht : s.transports[i]? with
      | none =>
          have hsame : s.step (.ensureTopic i topic options) = s := by
            simp only [System.step, System.call, ht]
          exact .inl ⟨u, hsame ▸ hlookup, hd⟩
      | some t =>
          cases hmay : t.callable with
          | false =>
              have hsame : s.step (.ensureTopic i topic options) = s := by
                simp [System.step, System.call, ht, hmay]
              exact .inl ⟨u, hsame ▸ hlookup, hd⟩
          | true =>
              rw [System.step, call_of_may _ ht hmay] at hlookup
              by_cases heq : i = j
              · subst heq
                have hlt : i < s.transports.length := (List.getElem?_eq_some_iff.mp ht).1
                have hself := Option.some.inj ((List.getElem?_set_self hlt).symm.trans hlookup)
                rw [← hself] at hd
                rcases declaring_beginEnsureTopic topic options ⟨s.broker, t, i⟩ with hsame | hnew
                · exact .inl ⟨t, ht, hsame.symm.trans hd⟩
                · obtain rfl := Option.some.inj (hnew.symm.trans hd)
                  exact .inr rfl
              · have hother := (List.getElem?_set_ne heq).symm.trans hlookup
                exact .inl ⟨u, hother, hd⟩

end System

/-! ## What such declarations leave in the broker -/

/-- A declaration that passes the check as every other does, outside the dead-letter space,
and with the routing kind that everybody declares its group with. -/
structure Shared (routing : String → Routing) (d : Declaration) : Prop where
  checked : checkTopicOptions inMemoryCapabilities d.2 false = .ok ()
  unreserved : d.Unreserved
  routing : d.2.group ≠ "" → d.2.routing = routing d.2.group

namespace Broker

theorem agrees_iff {o o' : TopicOptions} : agrees o o' = true ↔
    o.durable = o'.durable ∧ o.shared = o'.shared ∧ o.deleteWhenUnused = o'.deleteWhenUnused ∧
      o.deadLetter = o'.deadLetter ∧ o.maxLength = o'.maxLength ∧ o.overflow = o'.overflow := by
  simp [agrees, and_assoc]

theorem agrees_of_both {o o' defaults : TopicOptions} (h : agrees defaults o = true)
    (h' : agrees defaults o' = true) : agrees o o' = true := by
  obtain ⟨hdurable, hshared, hdelete, hdead, hmax, hoverflow⟩ := agrees_iff.mp h
  obtain ⟨hdurable', hshared', hdelete', hdead', hmax', hoverflow'⟩ := agrees_iff.mp h'
  exact agrees_iff.mpr ⟨hdurable.symm.trans hdurable', hshared.symm.trans hshared',
    hdelete.symm.trans hdelete', hdead.symm.trans hdead', hmax.symm.trans hmax',
    hoverflow.symm.trans hoverflow'⟩

/-- The check lets through what agrees with the defaults. -/
theorem agrees_of_checked {options : TopicOptions}
    (h : checkTopicOptions inMemoryCapabilities options false = .ok ()) :
    agrees {} options = true := by
  have hnone : offender options = none := by
    cases hoffender : offender options with
    | none => rfl
    | some property =>
        simp [checkTopicOptions, inMemoryCapabilities, hoffender] at h
  have hfirst : ∀ (p : Prop) [Decidable p] (name : String) (rest : Option String),
      (if p then some name else rest) = none → ¬ p ∧ rest = none := by
    intro p _ name rest hrest
    split at hrest
    · exact absurd hrest (by simp)
    · exact ⟨‹_›, hrest⟩
  obtain ⟨hdurable, hnone⟩ := hfirst _ _ _ hnone
  obtain ⟨hshared, hnone⟩ := hfirst _ _ _ hnone
  obtain ⟨hdelete, hnone⟩ := hfirst _ _ _ hnone
  obtain ⟨hdead, hnone⟩ := hfirst _ _ _ hnone
  obtain ⟨hmax, hnone⟩ := hfirst _ _ _ hnone
  obtain ⟨hoverflow, -⟩ := hfirst _ _ _ hnone
  exact agrees_iff.mpr ⟨(not_not.mp hdurable).symm, (not_not.mp hshared).symm,
    (not_not.mp hdelete).symm, (not_not.mp hdead).symm, (not_not.mp hmax).symm,
    (not_not.mp hoverflow).symm⟩

/-- Every topic is stored with the properties that everybody asks for, every forensic
destination with its own, and every group with its routing kind. -/
structure Uniform (routing : String → Routing) (b : Broker) : Prop where
  sources : ∀ topic stored, b.optionsOf topic = some stored →
    (∀ source, topic ≠ deadLetterTopic source) → agrees {} stored = true
  forensics : ∀ source stored, b.optionsOf (deadLetterTopic source) = some stored →
    agrees (forensicTopicOptions source) stored = true
  groups : ∀ (group : String) (kind : Routing), b.groups[group]? = some kind →
    kind = if group = kDeadLetterExchange then .exact else routing group

section Uniform

variable {routing : String → Routing} {b b' : Broker}

theorem uniform_init : Uniform routing {} :=
  ⟨fun topic stored h => absurd h (by simp [optionsOf, find]),
    fun source stored h => absurd h (by simp [optionsOf, find]),
    fun group kind h => absurd h (by simp)⟩

theorem Uniform.of_same (h : Uniform routing b) (hsame : SameTopics b b')
    (hgroups : b'.groups = b.groups) : Uniform routing b' :=
  ⟨fun topic stored hstored => h.sources topic stored (hsame topic ▸ hstored),
    fun source stored hstored => h.forensics source stored (hsame _ ▸ hstored),
    fun group kind hkind => h.groups group kind (hgroups ▸ hkind)⟩

/-- Neither half of such a declaration is refused. -/
theorem Uniform.agrees_source (h : Uniform routing b) {d : Declaration}
    (hd : Shared routing d) : Agrees b d.1 d.2 := by
  refine ⟨?_, fun state hstate => ?_⟩
  · by_cases hgroup : d.2.group = ""
    · exact .inl hgroup
    · refine .inr fun kind hkind => ?_
      rw [h.groups _ kind hkind, if_neg hd.unreserved.group, hd.routing hgroup]
  · exact agrees_of_both (h.sources d.1 _ (optionsOf_of_find hstate) hd.unreserved.topic)
      (agrees_of_checked hd.checked)

theorem Uniform.agrees_forensic (h : Uniform routing b) (source : Topic) :
    Agrees b (deadLetterTopic source) (forensicTopicOptions source) := by
  refine ⟨.inr fun kind hkind => ?_, fun state hstate => ?_⟩
  · rw [h.groups _ kind hkind]
    rfl
  · exact agrees_of_both (h.forensics source _ (optionsOf_of_find hstate)) (agrees_self _)

/-- A declaration that is not refused adds what it asks for. -/
theorem Uniform.ensureTopic (h : Uniform routing b) {topic : Topic} {options : TopicOptions}
    (hsources : (∀ source, topic ≠ deadLetterTopic source) → agrees {} options = true)
    (hforensics : ∀ source, topic = deadLetterTopic source →
      agrees (forensicTopicOptions source) options = true)
    (hkind : options.group ≠ "" → options.routing =
      if options.group = kDeadLetterExchange then .exact else routing options.group) :
    Uniform routing (ensureTopic topic options b).2 := by
  refine ⟨fun t stored hstored hfree => ?_, fun source stored hstored => ?_,
    fun group kind hgroup => ?_⟩
  · rcases optionsOf_ensureTopic topic options b t with hsame | ⟨rfl, -, hnew⟩
    · exact h.sources t stored (hsame ▸ hstored) hfree
    · obtain rfl := Option.some.inj (hnew.symm.trans hstored)
      exact hsources hfree
  · rcases optionsOf_ensureTopic topic options b (deadLetterTopic source) with
      hsame | ⟨heq, -, hnew⟩
    · exact h.forensics source stored (hsame ▸ hstored)
    · obtain rfl := Option.some.inj (hnew.symm.trans hstored)
      exact hforensics source heq
  · rw [groups_ensureTopic] at hgroup
    rcases groups_ensureGroup hgroup with hbefore | ⟨hne, rfl, rfl⟩
    · exact h.groups group kind hbefore
    · exact hkind hne

theorem Uniform.source (h : Uniform routing b) {d : Declaration} (hd : Shared routing d) :
    Uniform routing (Broker.ensureTopic d.1 d.2 b).2 := by
  refine h.ensureTopic (fun _ => agrees_of_checked hd.checked) (fun source heq => ?_) fun hgroup => ?_
  · exact absurd heq (hd.unreserved.topic source)
  · rw [if_neg hd.unreserved.group]
    exact hd.routing hgroup

theorem Uniform.forensic (h : Uniform routing b) (source : Topic) :
    Uniform routing
      (Broker.ensureTopic (deadLetterTopic source) (forensicTopicOptions source) b).2 := by
  refine h.ensureTopic (fun hfree => absurd rfl (hfree source)) (fun source' heq => ?_) fun _ => rfl
  obtain rfl := deadLetterTopic_injective heq
  exact agrees_self _

/-- A publish creates its topic, with the defaults, if that does not exist. -/
theorem Uniform.publish (h : Uniform routing b) (hgrouped : Grouped b) {topic : Topic}
    (hdeclared : (b.find topic).isSome = true ∨ ∀ source, topic ≠ deadLetterTopic source)
    (body : Bytes) (route : String) : Uniform routing (publish topic body route b).2 := by
  have hgroups : (Broker.publish topic body route b).2.groups = b.groups := by
    rw [(publish_evolves topic body route b).groups]
    cases hfind : b.find topic with
    | none => rw [opened, hfind]; rfl
    | some state =>
        by_cases hgroup : state.options.group = ""
        · rw [opened, hfind, Option.getD_some, if_pos hgroup]
          rfl
        · have hrouting := (hgrouped topic _ (optionsOf_of_find hfind) hgroup).1
          rw [opened_of_declared hfind hgroup hrouting]
  cases hfind : b.find topic with
  | some state =>
      refine h.of_same (fun t => ?_) hgroups
      rw [optionsOf_publish]
      split
      · next heq =>
          subst heq
          rw [optionsOf_of_find hfind, Option.getD_some]
      · rfl
  | none =>
      have hfree := hdeclared.resolve_left (by simp [hfind])
      have hnone : b.optionsOf topic = none := by rw [optionsOf, hfind, Option.map_none]
      refine ⟨fun t stored hstored hsource => ?_, fun source stored hstored => ?_,
        fun group kind hkind => h.groups group kind (hgroups ▸ hkind)⟩
      · rw [optionsOf_publish, hnone] at hstored
        split at hstored
        · rw [← Option.some.inj hstored]
          exact agrees_self _
        · exact h.sources t stored hstored hsource
      · rw [optionsOf_publish, if_neg (hfree source)] at hstored
        exact h.forensics source stored hstored

end Uniform

end Broker

open Broker

namespace InMemoryTransport

section Run

variable {routing : String → Routing} {b : Broker} {t : InMemoryTransport} {i : Nat}
  {d : Declaration}

/-- Such a declaration returns, and moves no message. -/
theorem ensureTopic_shared (h : Uniform routing b) (hd : Shared routing d)
    (hconnected : t.connected = true) :
    ∃ b', InMemoryTransport.ensureTopic d.1 d.2 ⟨b, t, i⟩ = (.ok (), ⟨b', t, i⟩) ∧
      ∀ topic, b'.waitingAt topic = b.waitingAt topic := by
  have hon : ¬ t.connected = false := by simp [hconnected]
  have hsource : ∀ c : Broker, Uniform routing c →
      ensureTopicSource d.1 d.2 ⟨c, t, i⟩ =
        (.ok (), ⟨(Broker.ensureTopic d.1 d.2 c).2, t, i⟩) := by
    intro c hc
    rw [ensureTopicSource, onBroker_apply, (ensureTopic_ok_iff c d.1 d.2).mpr (hc.agrees_source hd)]
  cases hdead : d.2.deadLetter with
  | false =>
      have hforensic : ensureTopicForensic d.1 d.2 ⟨b, t, i⟩ = (.ok (), ⟨b, t, i⟩) := by
        simp only [ensureTopicForensic, Exec.get_bind]
        rw [if_neg hon, if_neg (by simp [hdead])]
        rfl
      refine ⟨_, ?_, fun topic => waitingAt_ensureTopic d.1 topic d.2 b⟩
      rw [InMemoryTransport.ensureTopic, Exec.bind_ok hforensic, hsource b h]
  | true =>
      have hok := (ensureTopic_ok_iff b (deadLetterTopic d.1) (forensicTopicOptions d.1)).mpr
        (h.agrees_forensic d.1)
      have hforensic : ensureTopicForensic d.1 d.2 ⟨b, t, i⟩ = (.ok (),
          ⟨(Broker.ensureTopic (deadLetterTopic d.1) (forensicTopicOptions d.1) b).2, t, i⟩) := by
        simp only [ensureTopicForensic, Exec.get_bind]
        rw [if_neg hon, if_pos hdead, onBroker_apply, hok]
      have hrun := hsource _ (h.forensic d.1)
      refine ⟨_, (Exec.bind_ok hforensic).trans hrun, fun topic => ?_⟩
      rw [waitingAt_ensureTopic, waitingAt_ensureTopic]

theorem declareTopic_shared (h : Uniform routing b) (hd : Shared routing d)
    (hconnected : t.connected = true) :
    (declareTopic d.1 d.2 false ⟨b, t, i⟩).1 = .ok ((b.waitingAt d.1).length % 2 ^ 32) := by
  obtain ⟨b', hrun, hwaiting⟩ := ensureTopic_shared (i := i) h hd hconnected
  have hon : ¬ t.connected = false := by simp [hconnected]
  unfold declareTopic Producer.declareTopic
  rw [hd.checked]
  dsimp only
  rw [Exec.bind_ok hrun, if_pos rfl, ← hwaiting]
  simp only [topicDepth, Exec.get_bind]
  rw [if_neg hon, onBroker_apply]
  simp only [Broker.depth, Exec.get_bind, Broker.waitingAt]
  cases b'.find d.1 <;> rfl

theorem startConsumer_shared (h : Uniform routing b) (hd : Shared routing d)
    (hconnected : t.connected = true) (hfree : t.subscribed = false) :
    (startConsumer d.1 d.2 false ⟨b, t, i⟩).1 = .ok () := by
  obtain ⟨b', hrun, -⟩ := ensureTopic_shared (i := i) h hd hconnected
  have hon : ¬ t.connected = false := by simp [hconnected]
  unfold startConsumer Motus.Consumer.start
  rw [hd.checked]
  dsimp only
  rw [Exec.bind_ok hrun]
  simp only [InMemoryTransport.subscribe, Exec.get_bind]
  rw [if_neg hon, if_neg (by simp), if_neg (by simp [hfree])]
  rfl

end Run

end InMemoryTransport

namespace System

/-- Whoever declares a topic goes through the check, and nobody sends to a forensic
destination before it exists. -/
def Agreeable (routing : String → Routing) (s : System) : Action → Prop
  | .ensureTopic _ topic options => Shared routing (topic, options)
  | .send _ topic _ _ =>
      (s.broker.find topic).isSome = true ∨ ∀ source, topic ≠ deadLetterTopic source
  | _ => True

/-- A half of `ensureTopic` that a connected transport carries out and the broker refuses. -/
def Refused (s : System) : Action → Prop
  | .ensureTopic i topic options => ∃ t, s.transports[i]? = some t ∧ t.connected = true ∧
      (ensureTopicForensic topic options ⟨s.broker, t, i⟩).1 ≠ .ok ()
  | .ensureTopicSource i => ∃ t topic options, s.transports[i]? = some t ∧
      t.declaring = some (topic, options) ∧
      (ensureTopicSource topic options ⟨s.broker, t, i⟩).1 ≠ .ok ()
  | _ => False

/-- What the declarations made so far, and those under way, leave. -/
structure Meets (routing : String → Routing) (s : System) : Prop where
  standing : Standing s
  grouped : GroupsStand s
  uniform : Uniform routing s.broker
  declaring : ∀ (j : Nat) t d, s.transports[j]? = some t → t.declaring = some d →
    Shared routing d

section Step

variable {routing : String → Routing} {s : System} {a : Action}

theorem meets_init : Meets routing machine.init :=
  ⟨standing_init, groupsStand_init, uniform_init,
    fun j t d hlookup => absurd hlookup (by simp [machine])⟩

theorem Meets.uniform_step (h : Meets routing s) (ha : Agreeable routing s a) :
    Uniform routing (s.step a).broker := by
  have heffect := step_effect s a
  generalize s.step a = s' at heffect ⊢
  cases heffect with
  | nothing => exact h.uniform
  | created => exact h.uniform
  | @site i t t' b' haction hlookup hsite =>
      have ht : t ∈ s.transports := List.mem_of_getElem? hlookup
      have hperformed : ∀ (entry : Entry) (message : Held) (d : Disposition), t.busy →
          Uniform routing ((s.broker.log entry).performed t.topic message d) := by
        intro entry message d hbusy
        have hlog : SameTopics s.broker (s.broker.log entry) := .of_find fun _ => rfl
        have htopic := hlog.extends.isSome (h.standing.anchored t ht hbusy)
        exact h.uniform.of_same (hlog.trans (sameTopics_performed htopic message d))
          (groups_performed _ t.topic message d)
      cases hsite with
      | quiet => exact h.uniform
      | declaredForensic source => exact h.uniform.forensic source
      | declared topic options hdeclaring =>
          exact h.uniform.source (h.declaring i t (topic, options) hlookup hdeclaring)
      | published topic payload options hsend =>
          rw [hsend] at ha
          exact h.uniform.publish h.grouped.grouped ha payload options.route
      | subscribed => exact h.uniform
      | purged topic => exact h.uniform.of_same (sameTopics_purge s.broker topic) (groups_purge _ _)
      | delivered state message rest _ _ _ hfind =>
          exact h.uniform.of_same ((sameTopics_write hfind rest).trans (.of_find fun _ => rfl)) rfl
      | handled message d _ hmessage =>
          exact hperformed _ message d (.inr (by rw [hmessage, Option.isSome_some]))
      | settled tag message d _ _ hmessage =>
          exact hperformed _ message d (.inl (isEmpty_of_getElem? hmessage))
      | left =>
          refine h.uniform.of_same ?_ (groups_putBackAll _ i t.topic _)
          cases hempty : t.outstanding.isEmpty with
          | true =>
              rw [unresolved_of_isEmpty hempty]
              exact .refl s.broker
          | false => exact sameTopics_putBackAll (h.standing.anchored t ht (.inl hempty)) i _

theorem Meets.step (h : Meets routing s) (ha : Agreeable routing s a) :
    Meets routing (s.step a) := by
  refine ⟨h.standing.step a, h.grouped.step h.standing a, h.uniform_step ha,
    fun j u d hlookup hd => ?_⟩
  rcases declaring_step hlookup hd with ⟨t, ht, hbefore⟩ | hbegun
  · exact h.declaring j t d ht hbefore
  · rw [hbegun] at ha
    exact ha

theorem Meets.not_refused (h : Meets routing s) : ¬ s.Refused a := by
  intro hrefused
  cases a with
  | ensureTopic i topic options =>
      obtain ⟨t, -, hconnected, hne⟩ := hrefused
      refine hne ?_
      simp only [ensureTopicForensic, Exec.get_bind]
      rw [if_neg (by simp [hconnected])]
      split
      · exact (ensureTopic_ok_iff _ _ _).mpr (h.uniform.agrees_forensic topic)
      · rfl
  | ensureTopicSource i =>
      obtain ⟨t, topic, options, hlookup, hdeclaring, hne⟩ := hrefused
      refine hne ((ensureTopic_ok_iff _ topic options).mpr ?_)
      exact h.uniform.agrees_source (h.declaring i t (topic, options) hlookup hdeclaring)
  | _ => exact hrefused

end Step

/-- In every run in which the declarations go through the check, agree on the routing kind
of each group and keep out of the dead-letter space, and nobody sends to a forensic
destination that does not exist yet: no declaration is refused, and in every state that is
reached whoever declares the next topic succeeds, a Producer, which is told how many
messages wait there, or a Consumer that is not subscribed. -/
theorem either_starts_first (routing : String → Routing) (actions : List Action)
    (hagreeable : machine.Guarded (Agreeable routing) actions) :
    machine.Guarded (fun s a => ¬ s.Refused a) actions ∧
    ∀ d, Shared routing d → machine.Always (fun s => ∀ (i : Nat) t,
      s.transports[i]? = some t → t.connected = true →
        (declareTopic d.1 d.2 false ⟨s.broker, t, i⟩).1 =
          .ok ((s.broker.waitingAt d.1).length % 2 ^ 32) ∧
        (t.subscribed = false → (startConsumer d.1 d.2 false ⟨s.broker, t, i⟩).1 = .ok ()))
      actions := by
  constructor
  · exact Machine.GuardedFrom.of_invariant (fun s a h ha => ⟨h.not_refused, h.step ha⟩)
      meets_init hagreeable
  · intro d hd
    have hmeets : machine.Always (Meets routing) actions :=
      Machine.AlwaysFrom.of_guarded (fun s a h ha => h.step ha) meets_init hagreeable
    refine hmeets.mono fun s h i t _ hconnected => ?_
    exact ⟨declareTopic_shared h.uniform hd hconnected,
      startConsumer_shared h.uniform hd hconnected⟩

/-- A short name is no forensic destination. -/
theorem ne_deadLetterTopic_of_length {topic : Topic} (h : topic.length < 18) (source : Topic) :
    topic ≠ deadLetterTopic source := by
  have hprefix : kDeadLetterPrefix.length = 18 := by decide
  rintro rfl
  simp only [deadLetterTopic, String.length_append, hprefix] at h
  omega

/-- A Producer declares a topic in a group while somebody sends to it, and to another one
that nobody has declared. -/
def lateRun : List Action :=
  [.create, .connect 0, .create, .connect 1,
    .ensureTopic 0 "jobs" { group := "work", route := "job.#" },
    .send 1 "jobs" [1] { durable := false }, .send 1 "mail" [2] { durable := false },
    .ensureTopicSource 0]

theorem either_starts_first_lateRun :
    ((machine.run lateRun).transports[1]?.map fun t =>
      ((declareTopic "mail" { group := "work" } false ⟨(machine.run lateRun).broker, t, 1⟩).1,
        (startConsumer "jobs" {} false ⟨(machine.run lateRun).broker, t, 1⟩).1)) =
      some (.ok 1, .ok ()) := by
  have hshared : ∀ d : Declaration, d = ("jobs", { group := "work", route := "job.#" }) ∨
      d = ("mail", { group := "work" }) ∨ d = ("jobs", {}) → Shared (fun _ => .pattern) d := by
    rintro d (rfl | rfl | rfl)
    all_goals exact ⟨by decide, ⟨ne_deadLetterTopic_of_length (by decide), by decide⟩, fun _ => rfl⟩
  have hagreeable : machine.Guarded (Agreeable fun _ => .pattern) lateRun :=
    ⟨trivial, trivial, trivial, trivial, hshared _ (.inl rfl),
      .inr (ne_deadLetterTopic_of_length (by decide)),
      .inr (ne_deadLetterTopic_of_length (by decide)), trivial, trivial⟩
  have hmeets := (either_starts_first _ lateRun hagreeable).2
  have hlast : ∃ t, (machine.run lateRun).transports[1]? = some t ∧ t.connected = true ∧
      t.subscribed = false := ⟨_, rfl, by decide +kernel, by decide +kernel⟩
  obtain ⟨t, ht, hconnected, hfree⟩ := hlast
  have hmail := (hmeets _ (hshared _ (.inr (.inl rfl)))).last 1 t ht hconnected
  have hjobs := (hmeets _ (hshared _ (.inr (.inr rfl)))).last 1 t ht hconnected
  have hwaiting : ((machine.run lateRun).broker.waitingAt "mail").length % 2 ^ 32 = 1 := by
    decide +kernel
  rw [ht, Option.map_some]
  exact congrArg some (Prod.ext (hwaiting ▸ hmail.1) (hjobs.2 hfree))

end System

end Motus.InMemory
