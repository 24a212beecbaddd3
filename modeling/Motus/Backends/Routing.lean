import Motus.Amqp.Granted
import Motus.Amqp.Remembered
import Motus.InMemory.Redeclaration

set_option autoImplicit false

/-!
# Which destinations a send reaches

The in-memory broker keeps the routing of every topic.  Under AMQP the broker keeps
the exchanges and bindings, and each transport keeps, for the topics it has declared
itself, the exchange and key it publishes with; for any other topic it falls back to
the default exchange.  `World` runs the same declarations on both: the AMQP broker holds
what the requests have declared that the transports' own calls were granted, as the logs
of their channels tell.

What an AMQP broker does with a message is assumed: the default exchange delivers to
the queue named by the key, any other to the queues bound to it whose key matches as
its type says.
-/

namespace Motus.Amqp

open Motus.Transport

/-- How an exchange compares the key of a binding with the key of a message. -/
def ExchangeType.matches : ExchangeType → String → String → Bool
  | .direct, binding, key => binding == key
  | .topic, binding, key => routeMatches binding key
  | .fanout, _, _ => true

/-- What the transports have declared at an AMQP broker. -/
structure AmqpBroker where
  queues : List Topic := []
  exchanges : List (String × ExchangeType) := []
  bindings : List (String × Topic × String) := []
  deriving DecidableEq, Repr

namespace AmqpBroker

/-- A request that the broker grants. -/
def grant (b : AmqpBroker) : Request → AmqpBroker
  | .declareExchange group type _ => { b with exchanges := (group, type) :: b.exchanges }
  | .declareQueue topic _ _ => { b with queues := topic :: b.queues }
  | .bindQueue group topic key => { b with bindings := (group, topic, key) :: b.bindings }
  | .purgeQueue _ | .setQos _ | .consume _ => b

/-- The queues that a published message reaches. -/
def receivers (b : AmqpBroker) (message : Publication) : Set Topic :=
  if message.exchange = "" then {t | t = message.routingKey ∧ t ∈ b.queues}
  else {t | ∃ type binding, (message.exchange, type) ∈ b.exchanges ∧
    (message.exchange, t, binding) ∈ b.bindings ∧
      type.matches binding message.routingKey = true}

end AmqpBroker

/-- The request asks for something that messages are routed by. -/
def Request.declares : Request → Bool
  | .declareExchange _ _ _ | .declareQueue _ _ _ | .bindQueue _ _ _ => true
  | .purgeQueue _ | .setQos _ | .consume _ => false

theorem AmqpBroker.grant_of_not_declares (b : AmqpBroker) {request : Request}
    (h : request.declares = false) : b.grant request = b := by
  cases request with
  | declareExchange group type durable => exact absurd h (by simp [Request.declares])
  | declareQueue topic flags arguments => exact absurd h (by simp [Request.declares])
  | bindQueue group topic key => exact absurd h (by simp [Request.declares])
  | _ => rfl

theorem AmqpBroker.foldl_grant_of_not_declares (b : AmqpBroker) {requests : List Request}
    (h : ∀ request ∈ requests, request.declares = false) : requests.foldl grant b = b := by
  induction requests with
  | nil => rfl
  | cons request rest ih =>
      rw [List.foldl_cons, b.grant_of_not_declares (h request List.mem_cons_self)]
      exact ih fun r hr => h r (List.mem_cons_of_mem _ hr)

end Motus.Amqp

namespace Motus.Backends

open Motus.Foundation Motus.Transport Motus.Amqp Motus.InMemory

/-- A destination and the options it is declared with. -/
abbrev Destination : Type := Topic × TopicOptions

/-- One call of `ensureTopic`: the transport it is made on, and what it meets there
under AMQP. -/
structure Declaration where
  transport : Nat
  topic : Topic
  options : TopicOptions
  env : Session.DeclareEnv := {}

/-- What a call declares: the forensic destination, if there is to be one, and the topic. -/
def Declaration.destinations (d : Declaration) : List Destination :=
  (if d.options.deadLetter then
    [(deadLetterTopic d.topic, forensicTopicOptions d.topic)] else []) ++ [(d.topic, d.options)]

/-- Everything that the calls declare. -/
def asked (calls : List Declaration) : List Destination := calls.flatMap Declaration.destinations

/-- The calls made on one transport. -/
def callsOf (i : Nat) (calls : List Declaration) : List Declaration :=
  calls.filter fun d => decide (d.transport = i)

/-- Every declaration of a topic uses the same options, every declaration of a group
the same routing. -/
structure Consistent (l : List Destination) : Prop where
  topics : ∀ t o o', (t, o) ∈ l → (t, o') ∈ l → o = o'
  groups : ∀ t o t' o', (t, o) ∈ l → (t', o') ∈ l → o.group ≠ "" → o.group = o'.group →
    o.routing = o'.routing

theorem Consistent.mono {l l' : List Destination} (h : Consistent l) (hsub : ∀ d ∈ l', d ∈ l) :
    Consistent l' :=
  ⟨fun t o o' ho ho' => h.topics t o o' (hsub _ ho) (hsub _ ho'),
    fun t o t' o' ho ho' => h.groups t o t' o' (hsub _ ho) (hsub _ ho')⟩

theorem consistent_iff {l : List Destination} : Consistent l ↔ ∀ d ∈ l, ∀ d' ∈ l,
    (d.1 = d'.1 → d.2 = d'.2) ∧
      (d.2.group ≠ "" → d.2.group = d'.2.group → d.2.routing = d'.2.routing) := by
  constructor
  · intro h d hd d' hd'
    refine ⟨fun heq => h.topics d.1 d.2 d'.2 hd (heq ▸ hd'), ?_⟩
    exact h.groups d.1 d.2 d'.1 d'.2 hd hd'
  · intro h
    exact ⟨fun t o o' ho ho' => (h _ ho _ ho').1 rfl, fun t o t' o' ho ho' => (h _ ho _ ho').2⟩

instance (l : List Destination) : Decidable (Consistent l) := decidable_of_iff _ consistent_iff.symm

/-- The two brokers and the transports of the AMQP one.  An in-memory transport keeps
nothing about routing. -/
structure World where
  amqp : AmqpBroker := {}
  transports : Nat → AmqpCppTransport
  inMemory : Broker := {}

namespace World

/-- The call on the in-memory backend. -/
def inMemoryCall (w : World) (d : Declaration) : Except Exn Unit × Site :=
  InMemoryTransport.ensureTopic d.topic d.options ⟨w.inMemory, { connected := true }, d.transport⟩

/-- The call under AMQP. -/
def cppCall (w : World) (d : Declaration) : Except Exn Unit × AmqpCppTransport :=
  AmqpCppTransport.ensureTopic d.topic d.options d.env (w.transports d.transport)

/-- The requests that were granted in the course of the call. -/
def answered (w : World) (d : Declaration) : List Request :=
  (w.cppCall d).2.session.granted.drop (w.transports d.transport).session.granted.length

/-- One call of `ensureTopic` on both backends. -/
def step (w : World) (d : Declaration) : World where
  amqp := (w.answered d).foldl AmqpBroker.grant w.amqp
  transports := fun i => if i = d.transport then (w.cppCall d).2 else w.transports i
  inMemory := (w.inMemoryCall d).2.broker

/-- Nothing is declared, no transport has declared anything, and none has a declaration
under way. -/
structure Start (w : World) : Prop where
  amqp : w.amqp = {}
  transports : ∀ i, (w.transports i).session.routes = fun _ => none
  idle : ∀ i, ∀ request ∈ (w.transports i).session.waiting, request.declares = false
  inMemory : w.inMemory = {}

/-- The world as a machine. -/
def machine (start : World) : Machine World Declaration := ⟨start, step⟩

/-- The call returns under AMQP. -/
def Returns (w : World) (d : Declaration) : Prop := (w.cppCall d).1 = .ok ()

/-- The queues that a send on a transport reaches under AMQP. -/
def amqpReceivers (w : World) (i : Nat) (topic : Topic) (payload : Bytes)
    (options : SendOptions) : Set Topic :=
  w.amqp.receivers
    (AmqpCppTransport.publication (w.transports i).session topic payload options)

/-- The topics to which the same send offers a copy on the in-memory backend. -/
def inMemoryReceivers (w : World) (topic : Topic) (payload : Bytes) (options : SendOptions) :
    Set Topic :=
  {t | ∃ copies copy, (Broker.publish topic payload options.route w.inMemory).2.offersMade =
    w.inMemory.offersMade ++ copies ∧ (t, copy) ∈ copies}

end World

/-! ## What the declarations leave in the in-memory broker -/

/-- The in-memory broker holds the destinations, all of them empty, and their groups. -/
structure Registered (l : List Destination) (b : Broker) : Prop where
  find : ∀ t o, (t, o) ∈ l → b.find t = some (Broker.declared t o)
  only : ∀ t state, b.find t = some state → ∃ o, (t, o) ∈ l
  groups : ∀ t o, (t, o) ∈ l → o.group ≠ "" → b.groups[o.group]? = some o.routing
  onlyGroups : ∀ group routing, b.groups[group]? = some routing →
    ∃ t o, (t, o) ∈ l ∧ o.group = group ∧ o.group ≠ "" ∧ o.routing = routing

theorem registered_init : Registered [] {} :=
  ⟨fun _ _ h => absurd h (by simp), fun _ _ h => absurd h (by simp [Broker.find]),
    fun _ _ h => absurd h (by simp), fun _ _ h => absurd h (by simp)⟩

section Registered

variable {l : List Destination} {b : Broker} {topic : Topic} {options : TopicOptions}

/-- A consistent declaration is accepted, and holds. -/
theorem Registered.ensureTopic (h : Registered l b)
    (hconsistent : Consistent (l ++ [(topic, options)])) :
    (Broker.ensureTopic topic options b).1 = .ok () ∧
      Registered (l ++ [(topic, options)]) (Broker.ensureTopic topic options b).2 := by
  have hnew : (topic, options) ∈ l ++ [(topic, options)] :=
    List.mem_append_right _ (List.mem_singleton_self _)
  have hagrees : Broker.GroupAgrees b options := by
    refine .inr fun routing hrouting => ?_
    obtain ⟨t, o, hmem, hsame, hne, rfl⟩ := h.onlyGroups _ _ hrouting
    exact hconsistent.groups t o topic options (List.mem_append_left _ hmem) hnew hne hsame
  have hgroup := (Broker.ensureGroup_eq_ok_iff b options).mpr hagrees
  have hfound : ∀ state, b.find topic = some state →
      (topic, options) ∈ l ∧ state = Broker.declared topic options := by
    intro state hfind
    obtain ⟨o, hmem⟩ := h.only topic state hfind
    obtain rfl := hconsistent.topics topic o options (List.mem_append_left _ hmem) hnew
    exact ⟨hmem, Option.some.inj (hfind.symm.trans (h.find topic o hmem))⟩
  have hok : (Broker.ensureTopic topic options b).1 = .ok () := by
    cases hfind : b.find topic with
    | none => exact Broker.ensureTopic_eq_ok_of_none hfind hgroup
    | some state =>
        rw [Broker.ensureTopic_eq_ok_iff hfind, (hfound state hfind).2]
        exact ⟨hagrees, Broker.agrees_self options⟩
  have hself := Broker.find_ensureTopic hok
  have hself' : (Broker.ensureTopic topic options b).2.find topic =
      some (Broker.declared topic options) := by
    rw [hself]
    cases hfind : b.find topic with
    | none => rfl
    | some state => rw [Option.getD_some, (hfound state hfind).2]
  refine ⟨hok, fun t o hmem => ?_, fun t state hfind => ?_, fun t o hmem hne => ?_,
    fun group routing hrouting => ?_⟩
  · by_cases heq : topic = t
    · subst heq
      rw [hself', hconsistent.topics topic o options hmem hnew]
    · rw [Broker.find_ensureTopic_of_ne b heq]
      rcases List.mem_append.mp hmem with hmem | hmem
      · exact h.find t o hmem
      · exact absurd (congrArg Prod.fst (List.mem_singleton.mp hmem)).symm heq
  · by_cases heq : topic = t
    · subst heq
      exact ⟨options, hnew⟩
    · rw [Broker.find_ensureTopic_of_ne b heq] at hfind
      obtain ⟨o, hmem⟩ := h.only t state hfind
      exact ⟨o, List.mem_append_left _ hmem⟩
  · rcases List.mem_append.mp hmem with hmem | hmem
    · exact Broker.keepsGroups_ensureTopic topic options b _ _ (h.groups t o hmem hne)
    · obtain ⟨rfl, rfl⟩ := Prod.mk.inj (List.mem_singleton.mp hmem)
      rw [Broker.groups_ensureTopic]
      exact Broker.ensureGroup_declares hgroup hne
  · rw [Broker.groups_ensureTopic] at hrouting
    rcases Broker.groups_ensureGroup hrouting with hbefore | ⟨hne, hgroup, hkind⟩
    · obtain ⟨t, o, hmem, hrest⟩ := h.onlyGroups group routing hbefore
      exact ⟨t, o, List.mem_append_left _ hmem, hrest⟩
    · exact ⟨topic, options, hnew, hgroup, hne, hkind⟩

/-- A consistent call holds, its forensic destination included. -/
theorem Registered.call (h : Registered l b) (d : Declaration)
    (hconsistent : Consistent (l ++ d.destinations)) (t : InMemoryTransport)
    (hconnected : t.connected = true) (i : Nat) :
    Registered (l ++ d.destinations)
      (InMemoryTransport.ensureTopic d.topic d.options ⟨b, t, i⟩).2.broker := by
  unfold Declaration.destinations at hconsistent ⊢
  cases hdead : d.options.deadLetter with
  | false =>
      have hrun : (InMemoryTransport.ensureTopic d.topic d.options ⟨b, t, i⟩).2.broker =
          (Broker.ensureTopic d.topic d.options b).2 := by
        simp [InMemoryTransport.ensureTopic, InMemoryTransport.ensureTopicForensic,
          InMemoryTransport.ensureTopicSource, hconnected, hdead]
      rw [hdead, if_neg Bool.false_ne_true, List.nil_append] at hconsistent
      rw [hrun, if_neg Bool.false_ne_true, List.nil_append]
      exact (h.ensureTopic hconsistent).2
  | true =>
      rw [hdead, if_pos rfl, ← List.append_assoc] at hconsistent
      obtain ⟨hok, hforensic⟩ := h.ensureTopic
        (hconsistent.mono fun dest hdest => List.mem_append_left _ hdest)
      have hfirst : InMemoryTransport.ensureTopicForensic d.topic d.options ⟨b, t, i⟩ =
          (.ok (), ⟨(Broker.ensureTopic (deadLetterTopic d.topic)
            (forensicTopicOptions d.topic) b).2, t, i⟩) := by
        simp [InMemoryTransport.ensureTopicForensic, hconnected, hdead, hok]
      rw [InMemoryTransport.ensureTopic, Exec.bind_ok hfirst, if_pos rfl, ← List.append_assoc]
      exact (hforensic.ensureTopic hconsistent).2

end Registered

/-! ## What they leave at an AMQP broker -/

/-- The AMQP broker holds the destinations, their groups and their bindings. -/
structure Bound (l : List Destination) (b : AmqpBroker) : Prop where
  queues : ∀ t, t ∈ b.queues ↔ ∃ o, (t, o) ∈ l
  exchanges : ∀ group type, (group, type) ∈ b.exchanges ↔
    ∃ t o, (t, o) ∈ l ∧ o.group = group ∧ o.group ≠ "" ∧ amqpExchangeType o.routing = type
  bindings : ∀ group t key, (group, t, key) ∈ b.bindings ↔
    ∃ o, (t, o) ∈ l ∧ o.group = group ∧ o.group ≠ "" ∧ Session.bindingKey t o = key

theorem bound_init : Bound [] {} :=
  ⟨fun t => by simp, fun group type => by simp, fun group t key => by simp⟩

/-- The requests of one declaration, granted one after the other. -/
theorem Bound.requests {l : List Destination} {b : AmqpBroker} (h : Bound l b)
    (dest : Destination) :
    Bound (l ++ [dest]) ((Session.requests dest.1 dest.2).foldl AmqpBroker.grant b) := by
  obtain ⟨topic, options⟩ := dest
  have hlast : ∀ t o, (t, o) ∈ l ++ [(topic, options)] ↔
      (t, o) ∈ l ∨ t = topic ∧ o = options := by
    intro t o
    rw [List.mem_append, List.mem_singleton, Prod.mk.injEq]
  unfold Session.requests
  by_cases hgroup : options.group = ""
  · rw [if_pos hgroup, if_pos hgroup]
    refine ⟨fun t => ?_, fun group type => ?_, fun group t key => ?_⟩
    · simp only [hlast, List.nil_append, List.append_nil, List.foldl_cons, List.foldl_nil,
        AmqpBroker.grant, List.mem_cons, h.queues]
      grind
    · simp only [hlast, List.nil_append, List.append_nil, List.foldl_cons, List.foldl_nil,
        AmqpBroker.grant, h.exchanges]
      grind
    · simp only [hlast, List.nil_append, List.append_nil, List.foldl_cons, List.foldl_nil,
        AmqpBroker.grant, h.bindings]
      grind
  · rw [if_neg hgroup, if_neg hgroup]
    refine ⟨fun t => ?_, fun group type => ?_, fun group t key => ?_⟩
    · simp only [hlast, List.cons_append, List.nil_append, List.foldl_cons, List.foldl_nil,
        AmqpBroker.grant, List.mem_cons, h.queues]
      grind
    · simp only [hlast, List.cons_append, List.nil_append, List.foldl_cons, List.foldl_nil,
        AmqpBroker.grant, List.mem_cons, Prod.mk.injEq, h.exchanges]
      grind
    · simp only [hlast, List.cons_append, List.nil_append, List.foldl_cons, List.foldl_nil,
        AmqpBroker.grant, List.mem_cons, Prod.mk.injEq, h.bindings]
      grind

theorem Bound.destinations (destinations : List Destination) {l : List Destination}
    {b : AmqpBroker} (h : Bound l b) : Bound (l ++ destinations)
      ((destinations.flatMap fun dest => Session.requests dest.1 dest.2).foldl
        AmqpBroker.grant b) := by
  induction destinations generalizing l b with
  | nil => exact (List.append_nil l).symm ▸ h
  | cons dest rest ih =>
      have hrest := ih (h.requests dest)
      rw [List.append_assoc] at hrest
      rw [List.flatMap_cons, List.foldl_append]
      exact hrest

/-! ## What they leave in the transports -/

/-- The routes hold the grouped destinations. -/
def Routed (l : List Destination) (routes : Topic → Option RouteBinding) : Prop :=
  ∀ t, (∀ o, (t, o) ∈ l → routes t =
      if o.group = "" then none else some ⟨o.group, Session.bindingKey t o⟩) ∧
    ((∀ o, (t, o) ∉ l) → routes t = none)

theorem Routed.noted {l : List Destination} {routes : Topic → Option RouteBinding}
    (h : Routed l routes) {dest : Destination} (hconsistent : Consistent (l ++ [dest])) :
    Routed (l ++ [dest]) (Session.noted dest.1 dest.2 routes) := by
  obtain ⟨topic, options⟩ := dest
  have hnew : (topic, options) ∈ l ++ [(topic, options)] :=
    List.mem_append_right _ (List.mem_singleton_self _)
  intro t
  by_cases heq : t = topic
  · subst heq
    refine ⟨fun o hmem => ?_, fun hnone => absurd hnew (hnone options)⟩
    obtain rfl := hconsistent.topics t o options hmem hnew
    unfold Session.noted
    split
    · next hgroup =>
        by_cases hbefore : (t, o) ∈ l
        · rw [(h t).1 o hbefore, if_pos hgroup]
        · refine (h t).2 fun o' ho' => hbefore ?_
          rw [← hconsistent.topics t o' o (List.mem_append_left _ ho') hnew]
          exact ho'
    · exact if_pos rfl
  · have hsame : Session.noted topic options routes t = routes t := by
      unfold Session.noted
      split
      · rfl
      · exact if_neg heq
    have hmem : ∀ o, (t, o) ∈ l ++ [(topic, options)] ↔ (t, o) ∈ l := by
      intro o
      simp [heq]
    rw [hsame]
    exact ⟨fun o ho => (h t).1 o ((hmem o).mp ho),
      fun hnone => (h t).2 fun o ho => hnone o ((hmem o).mpr ho)⟩

/-! ## The declarations of a world -/

theorem asked_append (calls calls' : List Declaration) :
    asked (calls ++ calls') = asked calls ++ asked calls' := List.flatMap_append

/-- The forensic destination of a topic is declared with it. -/
theorem asked_forensic {calls : List Declaration} {t : Topic} {o : TopicOptions}
    (hmem : (t, o) ∈ asked calls) (hdead : o.deadLetter = true) :
    (deadLetterTopic t, forensicTopicOptions t) ∈ asked calls := by
  obtain ⟨d, hd, hdest⟩ := List.mem_flatMap.mp hmem
  refine List.mem_flatMap.mpr ⟨d, hd, ?_⟩
  unfold Declaration.destinations at hdest ⊢
  rcases List.mem_append.mp hdest with hforensic | hown
  · split at hforensic
    · obtain ⟨-, rfl⟩ := Prod.mk.inj (List.mem_singleton.mp hforensic)
      exact absurd hdead Bool.false_ne_true
    · exact absurd hforensic (by simp)
  · obtain ⟨rfl, rfl⟩ := Prod.mk.inj (List.mem_singleton.mp hown)
    rw [if_pos hdead]
    exact List.mem_append_left _ (List.mem_singleton_self _)

theorem asked_callsOf_subset (i : Nat) (calls : List Declaration) :
    ∀ dest ∈ asked (callsOf i calls), dest ∈ asked calls := by
  intro dest hdest
  obtain ⟨d, hd, hmem⟩ := List.mem_flatMap.mp hdest
  exact List.mem_flatMap.mpr ⟨d, List.mem_of_mem_filter hd, hmem⟩

namespace World

/-- Both brokers hold what the calls declared, and each transport the routes of its own;
no declaration is under way. -/
structure Settled (calls : List Declaration) (w : World) : Prop where
  inMemory : Registered (asked calls) w.inMemory
  amqp : Bound (asked calls) w.amqp
  transports : ∀ i, Routed (asked (callsOf i calls)) (w.transports i).session.routes
  idle : ∀ i, ∀ request ∈ (w.transports i).session.waiting, request.declares = false

theorem settled_start {w : World} (h : Start w) : Settled [] w :=
  ⟨h.inMemory ▸ registered_init, h.amqp ▸ bound_init,
    fun i => h.transports i ▸ fun _ => ⟨fun _ hmem => absurd hmem (by simp [asked, callsOf]),
      fun _ => rfl⟩, h.idle⟩

/-- A call that returned was granted what it declares, after what had been waiting. -/
theorem answered_of_returns {w : World} {d : Declaration} (h : w.Returns d) :
    w.answered d = (w.transports d.transport).session.waiting ++
        d.destinations.flatMap (fun dest => Session.requests dest.1 dest.2) ∧
      (w.cppCall d).2.session.waiting = [] := by
  have hcall : AmqpCppTransport.ensureTopic d.topic d.options d.env
      (w.transports d.transport) = (.ok (), (w.cppCall d).2) := Prod.ext h rfl
  obtain ⟨hgranted, hwaiting⟩ := AmqpCppTransport.granted_ensureTopic hcall
  refine ⟨?_, hwaiting⟩
  rw [answered, hgranted, Session.asked, List.append_assoc, List.drop_left]
  unfold Declaration.destinations
  cases d.options.deadLetter <;> simp

theorem asked_callsOf_concat (i : Nat) (calls : List Declaration) (d : Declaration) :
    asked (callsOf i (calls ++ [d])) =
      asked (callsOf i calls) ++ (if d.transport = i then d.destinations else []) := by
  rw [callsOf, List.filter_append, asked_append]
  congr 1
  by_cases heq : d.transport = i <;> simp [asked, heq]

/-- A call that returned leaves its transport the routes of what it declared. -/
theorem routed_call {l : List Destination} {t t' : AmqpCppTransport} {d : Declaration}
    (h : Routed l t.session.routes) (hconsistent : Consistent (l ++ d.destinations))
    (hcall : AmqpCppTransport.ensureTopic d.topic d.options d.env t = (.ok (), t')) :
    Routed (l ++ d.destinations) t'.session.routes := by
  unfold Declaration.destinations at hconsistent ⊢
  rw [AmqpCppTransport.routes_ensureTopic hcall]
  cases hdead : d.options.deadLetter with
  | false =>
      rw [hdead, if_neg Bool.false_ne_true, List.nil_append] at hconsistent
      rw [if_neg Bool.false_ne_true, if_neg Bool.false_ne_true, List.nil_append]
      exact h.noted hconsistent
  | true =>
      rw [hdead, if_pos rfl, ← List.append_assoc] at hconsistent
      rw [if_pos rfl, if_pos rfl, ← List.append_assoc]
      have hforensic := h.noted
        (hconsistent.mono fun dest hdest => List.mem_append_left _ hdest)
      exact hforensic.noted hconsistent

theorem Settled.step {calls : List Declaration} {w : World} (h : Settled calls w)
    {d : Declaration} (hreturns : w.Returns d) (hconsistent : Consistent (asked (calls ++ [d]))) :
    Settled (calls ++ [d]) (w.step d) := by
  have hown := hconsistent.mono (asked_callsOf_subset d.transport (calls ++ [d]))
  have hasked : asked (calls ++ [d]) = asked calls ++ d.destinations := by
    rw [asked_append]
    simp [asked]
  rw [asked_callsOf_concat, if_pos rfl] at hown
  rw [hasked] at hconsistent
  obtain ⟨hanswered, hwaiting⟩ := answered_of_returns hreturns
  refine ⟨?_, ?_, fun i => ?_, fun i => ?_⟩
  · rw [hasked]
    exact h.inMemory.call d hconsistent { connected := true } rfl d.transport
  · rw [hasked]
    change Bound _ ((w.answered d).foldl AmqpBroker.grant w.amqp)
    rw [hanswered, List.foldl_append,
      w.amqp.foldl_grant_of_not_declares (h.idle d.transport)]
    exact h.amqp.destinations d.destinations
  · rw [asked_callsOf_concat]
    by_cases heq : i = d.transport
    · subst heq
      have hcall : AmqpCppTransport.ensureTopic d.topic d.options d.env
          (w.transports d.transport) = (.ok (), (w.cppCall d).2) := Prod.ext hreturns rfl
      have hself : (w.step d).transports d.transport = (w.cppCall d).2 := if_pos rfl
      rw [if_pos rfl, hself]
      exact routed_call (h.transports d.transport) hown hcall
    · have hother : (w.step d).transports i = w.transports i := if_neg heq
      rw [if_neg (Ne.symm heq), List.append_nil, hother]
      exact h.transports i
  · by_cases heq : i = d.transport
    · have hself : (w.step d).transports i = (w.cppCall d).2 := if_pos heq
      rw [hself, hwaiting]
      exact fun _ hmem => absurd hmem List.not_mem_nil
    · have hother : (w.step d).transports i = w.transports i := if_neg heq
      rw [hother]
      exact h.idle i

theorem settled_run {start : World} {calls : List Declaration} (rest : List Declaration)
    {w : World} (h : Settled calls w) (hreturns : (machine start).GuardedFrom Returns w rest)
    (hconsistent : Consistent (asked (calls ++ rest))) :
    Settled (calls ++ rest) ((machine start).runFrom w rest) := by
  induction rest generalizing calls w with
  | nil => exact (List.append_nil calls).symm ▸ h
  | cons d rest ih =>
      rw [List.append_cons calls d rest] at hconsistent ⊢
      refine ih (h.step hreturns.1 (hconsistent.mono fun dest hdest => ?_)) hreturns.2 hconsistent
      rw [asked_append]
      exact List.mem_append_left _ hdest

/-! ## Where a send goes -/

/-- The key of a send to a topic that is declared with these options. -/
def sendKey (topic : Topic) (declared : TopicOptions) (options : SendOptions) : String :=
  if options.route = "" then Session.bindingKey topic declared else options.route

/-- The topic is declared in the group of `declared`, and its binding matches the key. -/
def Reached (calls : List Declaration) (declared : TopicOptions) (key : String) (t : Topic) :
    Prop :=
  ∃ o, (t, o) ∈ asked calls ∧ o.group = declared.group ∧
    Broker.bindingMatches declared.routing (Session.bindingKey t o) key = true

theorem matches_amqpExchangeType (routing : Routing) (binding key : String) :
    (amqpExchangeType routing).matches binding key = Broker.bindingMatches routing binding key := by
  cases routing <;> rfl

section Receivers

variable {calls : List Declaration} {w : World} {topic : Topic} {declared : TopicOptions}

/-- What is published to the default exchange reaches the queue of its name only. -/
theorem Settled.amqpReceivers_fallback (h : Settled calls w)
    (hmem : (topic, declared) ∈ asked calls) {i : Nat}
    (hroutes : (w.transports i).session.routes topic = none) (payload : Bytes)
    (options : SendOptions) : w.amqpReceivers i topic payload options = {topic} := by
  ext t
  simp only [amqpReceivers, AmqpCppTransport.publication, hroutes, Option.map_none,
    Option.getD_none, AmqpBroker.receivers, if_true, Set.mem_ofPred_eq, Set.mem_singleton_iff]
  rw [if_neg fun hoverride => hoverride.2 rfl]
  refine ⟨fun hreached => hreached.1, ?_⟩
  rintro rfl
  exact ⟨rfl, (h.amqp.queues t).mpr ⟨declared, hmem⟩⟩

/-- What is published through a group reaches the destinations bound to it. -/
theorem Settled.amqpReceivers_group (h : Settled calls w) (hconsistent : Consistent (asked calls))
    {i : Nat} (hmem : (topic, declared) ∈ asked (callsOf i calls)) (hgroup : declared.group ≠ "")
    (payload : Bytes) (options : SendOptions) :
    w.amqpReceivers i topic payload options =
      {t | Reached calls declared (sendKey topic declared options) t} := by
  have hroutes := (h.transports i topic).1 declared hmem
  rw [if_neg hgroup] at hroutes
  have hmem' := asked_callsOf_subset i calls _ hmem
  have hkey : (if options.route ≠ "" ∧ declared.group ≠ "" then options.route
      else Session.bindingKey topic declared) = sendKey topic declared options := by
    unfold sendKey
    by_cases hroute : options.route = "" <;> simp [hroute, hgroup]
  ext t
  simp only [amqpReceivers, AmqpCppTransport.publication, hroutes, Option.map_some,
    Option.getD_some, AmqpBroker.receivers, if_neg hgroup, hkey, Set.mem_ofPred_eq]
  constructor
  · rintro ⟨type, binding, hexchange, hbinding, hmatch⟩
    obtain ⟨t', o', ho', hsame', hne', rfl⟩ := (h.amqp.exchanges _ _).mp hexchange
    obtain ⟨o, ho, hsame, -, rfl⟩ := (h.amqp.bindings _ _ _).mp hbinding
    rw [matches_amqpExchangeType, hconsistent.groups t' o' topic declared ho' hmem' hne' hsame']
      at hmatch
    exact ⟨o, ho, hsame, hmatch⟩
  · rintro ⟨o, ho, hsame, hmatch⟩
    refine ⟨amqpExchangeType declared.routing, Session.bindingKey t o,
      (h.amqp.exchanges _ _).mpr ⟨topic, declared, hmem', rfl, hgroup, rfl⟩,
      (h.amqp.bindings _ _ _).mpr ⟨o, ho, hsame, hsame ▸ hgroup, rfl⟩, ?_⟩
    rw [matches_amqpExchangeType]
    exact hmatch

theorem Settled.grouped (h : Settled calls w) : Broker.Grouped w.inMemory := by
  intro t options hoptions hgroup
  obtain ⟨state, hfind, rfl⟩ := Option.map_eq_some_iff.mp hoptions
  obtain ⟨o, ho⟩ := h.inMemory.only t state hfind
  obtain rfl : state = Broker.declared t o :=
    Option.some.inj (hfind.symm.trans (h.inMemory.find t o ho))
  refine ⟨h.inMemory.groups t o ho hgroup, fun hdead => ?_⟩
  have hforensic := h.inMemory.find _ _ (asked_forensic ho hdead)
  exact ⟨_, Broker.optionsOf_of_find hforensic, Broker.agrees_self _⟩

/-- A send to a topic in no group reaches that topic. -/
theorem Settled.inMemoryReceivers_plain (h : Settled calls w)
    (hmem : (topic, declared) ∈ asked calls) (hgroup : declared.group = "") (payload : Bytes)
    (options : SendOptions) : w.inMemoryReceivers topic payload options = {topic} := by
  have hmade := Broker.offersMade_publish_plain (h.inMemory.find topic declared hmem) hgroup
    (by simp [TopicState.full, Broker.declared]; omega) payload options.route
  ext t
  rw [inMemoryReceivers, hmade, Set.mem_ofPred_eq, Set.mem_singleton_iff]
  constructor
  · rintro ⟨copies, copy, hcopies, hcopy⟩
    rw [← List.append_cancel_left hcopies, List.mem_singleton] at hcopy
    exact congrArg Prod.fst hcopy
  · rintro rfl
    exact ⟨_, _, rfl, List.mem_singleton_self _⟩

/-- A send to a topic in a group reaches the destinations of the group. -/
theorem Settled.inMemoryReceivers_group (h : Settled calls w)
    (hmem : (topic, declared) ∈ asked calls) (hgroup : declared.group ≠ "") (payload : Bytes)
    (options : SendOptions) : w.inMemoryReceivers topic payload options =
      {t | Reached calls declared (sendKey topic declared options) t} := by
  obtain ⟨offers, -, hpublished⟩ := Broker.publish_published h.grouped
    (h.inMemory.find topic declared hmem) hgroup (h.inMemory.groups topic declared hmem hgroup)
    payload options.route
  have htopics : ∀ t, t ∈ offers.map Offer.topic ↔
      Reached calls declared (sendKey topic declared options) t := by
    intro t
    rw [hpublished.topics, Broker.mem_destinations]
    constructor
    · rintro ⟨state, hfind, hsame, hmatch⟩
      obtain ⟨o, ho⟩ := h.inMemory.only t state hfind
      obtain rfl : state = Broker.declared t o :=
        Option.some.inj (hfind.symm.trans (h.inMemory.find t o ho))
      exact ⟨o, ho, hsame, hmatch⟩
    · rintro ⟨o, ho, hsame, hmatch⟩
      exact ⟨_, h.inMemory.find t o ho, hsame, hmatch⟩
  ext t
  rw [inMemoryReceivers, hpublished.offersMade, Set.mem_ofPred_eq, Set.mem_ofPred_eq, ← htopics]
  constructor
  · rintro ⟨copies, copy, hcopies, hcopy⟩
    rw [← List.append_cancel_left hcopies] at hcopy
    obtain ⟨offer, hoffer, heq⟩ := List.mem_map.mp hcopy
    exact List.mem_map.mpr ⟨offer, hoffer, congrArg Prod.fst heq⟩
  · intro ht
    obtain ⟨offer, hoffer, rfl⟩ := List.mem_map.mp ht
    exact ⟨_, offer.copy, rfl, List.mem_map.mpr ⟨offer, hoffer, rfl⟩⟩

end Receivers

end World

open World

/-- The answers to the requests of a declaration. -/
def granted : Session.DeclareEnv where
  destination := { exchange := answeredOnce, queue := answeredOnce, bind := answeredOnce }

/-- Two transports that are connected. -/
def connectedWorld : World where
  transports := fun _ => (AmqpCppTransport.connect {} opened {}).2

/-- The first of them declares two destinations of one group. -/
def auditedCalls : List Declaration :=
  [{ transport := 0, topic := "audit", env := granted
     options := { deadLetter := false, group := "events", route := "#" } },
   { transport := 0, topic := "mail", env := granted
     options := { deadLetter := false, group := "events", route := "user.*" } }]

theorem start_connectedWorld : Start connectedWorld :=
  ⟨rfl, fun _ => rfl, fun _ request hmem =>
    absurd hmem (show request ∉ ([] : List Request) from List.not_mem_nil), rfl⟩

theorem guarded_auditedCalls : (machine connectedWorld).Guarded Returns auditedCalls :=
  ⟨by unfold Returns; decide +kernel, by unfold Returns; decide +kernel, trivial⟩

end Motus.Backends
