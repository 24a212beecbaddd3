import Motus.Amqp.QueueArguments
import Motus.Amqp.SimpleTransport

set_option autoImplicit false

/-!
# Asking for a depth

A broker refuses to declare a queue again with other flags or arguments.  AMQP-CPP asks for
a depth by a passive declaration, which compares nothing; SimpleAmqpClient declares the
queue once more, as `depthOptions` reconstructs it.

The reconstruction knows the topic that was declared last, recognises a forensic
destination by its name and takes the defaults for all others.  `Harmless` is the depth
request that finds its queue as it was declared; which requests are is decided by the
calls of `ensureTopic` alone.
-/

namespace Motus.Amqp

open Motus.Foundation Motus.Transport

/-- A queue of the broker, with what it was declared with. -/
structure Queue where
  flags : List QueueFlag
  arguments : List (String × Argument)
  messages : Nat := 0
  deriving DecidableEq, Repr

/-- A transport and the queues of its broker. -/
structure Deployment where
  transport : SimpleAmqpTransport := {}
  queues : Topic → Option Queue := fun _ => none

namespace Deployment

open SimpleAmqpTransport

/-- A method of the transport that reaches the broker. -/
abbrev Method (α : Type) : Type := Exec Exn Deployment α

/-- A method of the transport, which leaves the queues alone. -/
def onTransport {α : Type} (x : SimpleAmqpTransport.Method α) : Method α :=
  Exec.zoom Deployment.transport (fun t d => { d with transport := t }) x

/-- How the broker answers a declaration of a queue. -/
def declareQueue (name : Topic) (flags : List QueueFlag) (arguments : List (String × Argument)) :
    Method Nat := do
  let d ← get
  match d.queues name with
  | some queue =>
      if .passive ∈ flags ∨ (queue.flags = flags ∧ queue.arguments = arguments) then
        pure queue.messages
      else throw (.runtimeError ("PRECONDITION_FAILED - inequivalent arg for queue '" ++ name ++ "'"))
  | none =>
      if .passive ∈ flags then throw (.runtimeError ("NOT_FOUND - no queue '" ++ name ++ "'"))
      else do
        set { d with queues := fun t => if t = name then some ⟨flags, arguments, 0⟩ else d.queues t }
        pure 0

/-- The messages of a queue are gone. -/
def purged (name : Topic) (d : Deployment) : Deployment :=
  { d with queues := fun t =>
      if t = name then (d.queues t).map fun queue => { queue with messages := 0 }
      else d.queues t }

/-- How the broker answers a purge. -/
def purgeQueue (name : Topic) : Method Unit := do
  let d ← get
  if (d.queues name).isNone then
    throw (.runtimeError ("NOT_FOUND - no queue '" ++ name ++ "'"))
  else modify (purged name)

/-! ## The methods of the transport -/

/-- The calls that provision a forensic destination; `env` is what a call of the library
throws when it is not the broker that refuses. -/
def declareForensic (topic : Topic) (options : TopicOptions) (env : DeclareEnv) : Method Unit :=
  if options.deadLetter then do
    onTransport (library env.exchange)
    let forensicTopic := deadLetterTopic topic
    let forensic := forensicTopicOptions topic
    onTransport (library env.forensicQueue)
    let _ ← declareQueue forensicTopic (queueFlags forensic) (queueArguments forensicTopic forensic)
    onTransport (library env.bind)
  else pure ()

/-- `ensureTopic` over queues of the broker: the forensic destination, then the topic. -/
def ensureTopic (topic : Topic) (options : TopicOptions) (env : DeclareEnv) : Method Unit := do
  onTransport (requireChannel "ensureTopic")
  declareForensic topic options env
  onTransport (library env.queue)
  let _ ← declareQueue topic (queueFlags options) (queueArguments topic options)
  onTransport (modify fun t => { t with memory := t.memory.store topic options })

/-- `topicDepth` over them: the queue is declared again with what `depthOptions` gives. -/
def topicDepth (topic : Topic) : Method Nat := do
  onTransport (requireChannel "topicDepth")
  let d ← get
  let options := d.transport.depthOptions topic
  declareQueue topic (queueFlags options) (queueArguments topic options)

/-- `purgeTopic` over them: the depth is read first, by the same declaration. -/
def purgeTopic (topic : Topic) : Method Nat := do
  onTransport (requireChannel "purgeTopic")
  let before ← topicDepth topic
  purgeQueue topic
  pure before

/-- A call of `ensureTopic`. -/
structure Ensure where
  topic : Topic
  options : TopicOptions := {}
  env : DeclareEnv := {}
  deriving DecidableEq, Repr

/-- Calls one after the other, the first that throws being the last. -/
def ensureTopics : List Ensure → Method Unit
  | [] => pure ()
  | call :: rest => do
      ensureTopic call.topic call.options call.env
      ensureTopics rest

/-- The destinations that a call declares, with the options it declares them with. -/
def Ensure.destinations (call : Ensure) : List (Topic × TopicOptions) :=
  (if call.options.deadLetter then
    [(deadLetterTopic call.topic, forensicTopicOptions call.topic)] else []) ++
  [(call.topic, call.options)]

/-! ## What successful calls leave at the broker -/

/-- The queue was declared with these options. -/
def Declared (name : Topic) (options : TopicOptions) (d : Deployment) : Prop :=
  ∃ queue, d.queues name = some queue ∧ queue.flags = queueFlags options ∧
    queue.arguments = queueArguments name options

/-- Every queue is still there as it was, and the channel is the same. -/
def Extends (d d' : Deployment) : Prop :=
  (∀ name queue, d.queues name = some queue → d'.queues name = some queue) ∧
    d'.transport.channel = d.transport.channel

instance : IsPreorder Deployment Extends where
  refl _ := ⟨fun _ _ => id, rfl⟩
  trans _ _ _ hde hef :=
    ⟨fun name queue h => hef.1 name queue (hde.1 name queue h), hef.2.trans hde.2⟩

theorem Declared.mono {name : Topic} {options : TopicOptions} {d d' : Deployment}
    (h : Declared name options d) (hextends : Extends d d') : Declared name options d' := by
  obtain ⟨queue, hqueue, hsame⟩ := h
  exact ⟨queue, hextends.1 name queue hqueue, hsame⟩

theorem passive_not_mem_queueFlags (options : TopicOptions) :
    QueueFlag.passive ∉ queueFlags options := by
  unfold queueFlags
  cases options.durable <;> cases options.shared <;> cases options.deleteWhenUnused <;> decide

/-- A broker that has the queue changes nothing, and refuses what differs. -/
theorem declareQueue_some {name : Topic} {d : Deployment} {queue : Queue}
    (h : d.queues name = some queue) (flags : List QueueFlag)
    (arguments : List (String × Argument)) :
    declareQueue name flags arguments d =
      if .passive ∈ flags ∨ (queue.flags = flags ∧ queue.arguments = arguments) then
        (.ok queue.messages, d)
      else (.error (.runtimeError
        ("PRECONDITION_FAILED - inequivalent arg for queue '" ++ name ++ "'")), d) := by
  simp only [declareQueue, Exec.get_bind, h]
  split <;> rfl

theorem declareQueue_none {name : Topic} {d : Deployment} (h : d.queues name = none)
    (flags : List QueueFlag) (arguments : List (String × Argument)) :
    declareQueue name flags arguments d =
      if .passive ∈ flags then
        (.error (.runtimeError ("NOT_FOUND - no queue '" ++ name ++ "'")), d)
      else (.ok 0, { d with
        queues := fun t => if t = name then some ⟨flags, arguments, 0⟩ else d.queues t }) := by
  simp only [declareQueue, Exec.get_bind, h]
  split <;> rfl

/-- The passive declaration of the other AMQP backend asks and changes nothing. -/
theorem declareQueue_passive (name : Topic) (d : Deployment) :
    (declareQueue name [.passive] [] d).2 = d ∧
      ∀ queue, d.queues name = some queue →
        (declareQueue name [.passive] [] d).1 = .ok queue.messages := by
  have hpassive : QueueFlag.passive ∈ [QueueFlag.passive] := List.mem_singleton_self _
  cases hqueue : d.queues name with
  | some queue =>
      rw [declareQueue_some hqueue, if_pos (.inl hpassive)]
      exact ⟨rfl, fun queue' hsame => by rw [Option.some.inj hsame]⟩
  | none =>
      rw [declareQueue_none hqueue, if_pos hpassive]
      exact ⟨rfl, fun queue' hsame => absurd hsame (by simp)⟩

theorem extends_library (thrown : Thrown) : Exec.Along Extends (onTransport (library thrown)) := by
  intro d
  cases thrown <;> exact ⟨fun _ _ => id, rfl⟩

theorem requireChannel_cases (method : String) (d : Deployment) :
    d.transport.channel.isSome = true ∧
        onTransport (requireChannel method) d = (.ok (), d) ∨
      d.transport.channel = none ∧ onTransport (requireChannel method) d =
        (.error (.logicError (method ++ "() called before connect()")), d) := by
  unfold onTransport requireChannel
  rw [Exec.zoom_apply, Exec.get_bind]
  cases hchannel : d.transport.channel with
  | none => exact .inr ⟨rfl, rfl⟩
  | some channel => exact .inl ⟨rfl, rfl⟩

theorem requireChannel_ok {d : Deployment} (h : d.transport.channel.isSome = true)
    (method : String) : onTransport (requireChannel method) d = (.ok (), d) := by
  obtain ⟨channel, hsome⟩ := Option.isSome_iff_exists.mp h
  unfold onTransport requireChannel
  rw [Exec.zoom_apply, Exec.get_bind, if_neg (by simp [hsome])]
  rfl

theorem topicDepth_apply {d : Deployment} (hchannel : d.transport.channel.isSome = true)
    (name : Topic) :
    topicDepth name d = declareQueue name (queueFlags (d.transport.depthOptions name))
      (queueArguments name (d.transport.depthOptions name)) d := by
  have hcheck := requireChannel_ok hchannel "topicDepth"
  unfold topicDepth
  rw [Exec.bind_ok hcheck, Exec.get_bind]

theorem extends_requireChannel (method : String) :
    Exec.Along Extends (onTransport (requireChannel method)) := by
  intro d
  rcases requireChannel_cases method d with ⟨-, hrun⟩ | ⟨-, hrun⟩ <;>
    · rw [hrun]
      exact Std.Refl.refl d

theorem extends_declareQueue (name : Topic) (flags : List QueueFlag)
    (arguments : List (String × Argument)) :
    Exec.Along Extends (declareQueue name flags arguments) := by
  intro d
  cases hqueue : d.queues name with
  | some queue =>
      rw [declareQueue_some hqueue]
      split <;> exact Std.Refl.refl d
  | none =>
      rw [declareQueue_none hqueue]
      split
      · exact Std.Refl.refl d
      · refine ⟨fun other queue hother => ?_, rfl⟩
        have hne : other ≠ name := by
          rintro rfl
          exact absurd (hqueue.symm.trans hother) (by simp)
        exact (if_neg hne).trans hother

/-- A declaration that the broker accepts is the one the queue has. -/
theorem declared_of_declareQueue {name : Topic} {options : TopicOptions} {d d' : Deployment}
    {messages : Nat}
    (h : declareQueue name (queueFlags options) (queueArguments name options) d =
      (.ok messages, d')) : Declared name options d' := by
  have hactive := passive_not_mem_queueFlags options
  cases hqueue : d.queues name with
  | some queue =>
      rw [declareQueue_some hqueue] at h
      split at h
      · next hsame =>
          obtain rfl : d = d' := (Prod.mk.inj h).2
          obtain ⟨hflags, harguments⟩ := hsame.resolve_left hactive
          exact ⟨queue, hqueue, hflags, harguments⟩
      · exact absurd (congrArg Prod.fst h) (by simp)
  | none =>
      rw [declareQueue_none hqueue, if_neg hactive] at h
      obtain rfl := (Prod.mk.inj h).2
      exact ⟨_, if_pos rfl, rfl, rfl⟩

theorem extends_declareForensic (topic : Topic) (options : TopicOptions) (env : DeclareEnv) :
    Exec.Along Extends (declareForensic topic options env) := by
  unfold declareForensic
  split
  · apply Exec.along_bind (extends_library _)
    intro _
    apply Exec.along_bind (extends_library _)
    intro _
    exact Exec.along_bind (extends_declareQueue _ _ _) fun _ => extends_library _
  · exact Exec.along_pure _

theorem extends_ensureTopic (topic : Topic) (options : TopicOptions) (env : DeclareEnv) :
    Exec.Along Extends (ensureTopic topic options env) := by
  apply Exec.along_bind (extends_requireChannel _)
  intro _
  apply Exec.along_bind (extends_declareForensic topic options env)
  intro _
  apply Exec.along_bind (extends_library _)
  intro _
  exact Exec.along_bind (extends_declareQueue _ _ _) fun _ _ => ⟨fun _ _ => id, rfl⟩

/-! ### The broker among the outcomes of a call -/

theorem same_declareQueue (name : Topic) (flags : List QueueFlag)
    (arguments : List (String × Argument)) :
    Exec.Along (Exec.Same Deployment.transport) (declareQueue name flags arguments) := by
  intro d
  unfold Exec.Same
  cases hqueue : d.queues name with
  | some queue =>
      rw [declareQueue_some hqueue]
      split <;> rfl
  | none =>
      rw [declareQueue_none hqueue]
      split <;> rfl

theorem same_library (failure : Thrown) :
    Exec.Along (Exec.Same Deployment.transport) (onTransport (library failure)) := by
  intro d
  cases failure <;> rfl

theorem same_declareForensic (topic : Topic) (options : TopicOptions) (env : DeclareEnv) :
    Exec.Along (Exec.Same Deployment.transport) (declareForensic topic options env) := by
  unfold declareForensic
  split
  · apply Exec.along_bind (same_library _)
    intro _
    apply Exec.along_bind (same_library _)
    intro _
    exact Exec.along_bind (same_declareQueue _ _ _) fun _ => same_library _
  · exact Exec.along_pure _

/-- `ensureTopic` where only the queue of the topic itself may be refused. -/
theorem ensureTopic_refusing {t : SimpleAmqpTransport} {channel : ClientChannel}
    (hchannel : t.channel = some channel) (topic : Topic) (options : TopicOptions)
    (refusal : Thrown) :
    (SimpleAmqpTransport.ensureTopic topic options { queue := refusal } t).1 =
        (match refusal with
        | none => .ok ()
        | some exn => .error exn) ∧
      (SimpleAmqpTransport.ensureTopic topic options { queue := refusal } t).2.memory =
        (match refusal with
        | none => t.memory.store topic options
        | some _ => t.memory) := by
  unfold SimpleAmqpTransport.ensureTopic SimpleAmqpTransport.declareForensic
  rw [SimpleAmqpTransport.requireChannel_bind, hchannel, if_neg (by simp)]
  cases options.deadLetter <;> cases refusal <;> exact ⟨rfl, rfl⟩

/-- And where what comes first for a forensic destination fails. -/
theorem ensureTopic_failing {t : SimpleAmqpTransport} {channel : ClientChannel}
    (hchannel : t.channel = some channel) (topic : Topic) {options : TopicOptions}
    (hdeadLetter : options.deadLetter = true) (exn : Exn) :
    (SimpleAmqpTransport.ensureTopic topic options { exchange := some exn } t).1 = .error exn ∧
      (SimpleAmqpTransport.ensureTopic topic options { exchange := some exn } t).2.memory =
        t.memory := by
  unfold SimpleAmqpTransport.ensureTopic SimpleAmqpTransport.declareForensic
  rw [SimpleAmqpTransport.requireChannel_bind, hchannel, if_neg (by simp), hdeadLetter]
  exact ⟨rfl, rfl⟩

/-- Against a broker `ensureTopic` returns or throws what it does when that broker's
refusals are among the failures it meets, and remembers the same. -/
theorem ensureTopic_meets (topic : Topic) (options : TopicOptions) (env : DeclareEnv)
    (d : Deployment) :
    ∃ met : DeclareEnv,
      (ensureTopic topic options env d).1 =
        (SimpleAmqpTransport.ensureTopic topic options met d.transport).1 ∧
      (ensureTopic topic options env d).2.transport.memory =
        (SimpleAmqpTransport.ensureTopic topic options met d.transport).2.memory := by
  rcases requireChannel_cases "ensureTopic" d with ⟨hsome, hcheck⟩ | ⟨hnone, hcheck⟩
  · obtain ⟨channel, hchannel⟩ := Option.isSome_iff_exists.mp hsome
    have hrefusing := ensureTopic_refusing hchannel topic options
    have hforensicSame := same_declareForensic topic options env d
    unfold ensureTopic
    rw [Exec.bind_ok hcheck]
    rcases hforensic : declareForensic topic options env d with ⟨r, e⟩
    rw [hforensic] at hforensicSame
    have he : e.transport = d.transport := hforensicSame
    cases r with
    | error exn =>
        have hdeadLetter : options.deadLetter = true := by
          by_contra hnot
          unfold declareForensic at hforensic
          rw [if_neg hnot] at hforensic
          exact absurd (congrArg Prod.fst hforensic) (by simp)
        obtain ⟨hresult, hmemory⟩ := ensureTopic_failing hchannel topic hdeadLetter exn
        refine ⟨{ exchange := some exn }, ?_, ?_⟩
        · rw [Exec.bind_error hforensic, hresult]
        · rw [Exec.bind_error hforensic, hmemory, he]
    | ok _ =>
        rw [Exec.bind_ok hforensic]
        cases hlibrary : env.queue with
        | some exn =>
            refine ⟨{ queue := some exn }, (hrefusing (some exn)).1.symm, ?_⟩
            rw [(hrefusing (some exn)).2, ← he]
            rfl
        | none =>
            have hqueueSame := same_declareQueue topic (queueFlags options)
              (queueArguments topic options) e
            have hpass : onTransport (library none) e = (.ok (), e) := rfl
            rw [Exec.bind_ok hpass]
            rcases hqueue : declareQueue topic (queueFlags options)
              (queueArguments topic options) e with ⟨r, e'⟩
            rw [hqueue] at hqueueSame
            have he' : e'.transport = d.transport := hqueueSame.trans he
            cases r with
            | error exn =>
                refine ⟨{ queue := some exn }, ?_, ?_⟩
                · rw [Exec.bind_error hqueue, (hrefusing (some exn)).1]
                · rw [Exec.bind_error hqueue, (hrefusing (some exn)).2, he']
            | ok _ =>
                refine ⟨{}, ?_, ?_⟩
                · rw [Exec.bind_ok hqueue, (hrefusing none).1]
                  rfl
                · rw [Exec.bind_ok hqueue, (hrefusing none).2, ← he']
                  rfl
  · refine ⟨{}, ?_, ?_⟩
    all_goals
      unfold ensureTopic SimpleAmqpTransport.ensureTopic
      rw [Exec.bind_error hcheck, SimpleAmqpTransport.requireChannel_bind, hnone]
      rfl

/-- And so does `topicDepth`. -/
theorem topicDepth_meets (name : Topic) (d : Deployment) :
    ∃ met, (topicDepth name d).1 = (SimpleAmqpTransport.topicDepth met d.transport).1 ∧
      (topicDepth name d).2.transport = d.transport := by
  rcases requireChannel_cases "topicDepth" d with ⟨hsome, -⟩ | ⟨hnone, hcheck⟩
  · obtain ⟨channel, hchannel⟩ := Option.isSome_iff_exists.mp hsome
    refine ⟨(topicDepth name d).1, ?_, ?_⟩
    · unfold SimpleAmqpTransport.topicDepth
      rw [SimpleAmqpTransport.requireChannel_bind, hchannel, if_neg (by simp)]
      cases (topicDepth name d).1 <;> rfl
    · rw [topicDepth_apply hsome]
      exact same_declareQueue _ _ _ d
  · refine ⟨.ok 0, ?_, ?_⟩
    · unfold topicDepth SimpleAmqpTransport.topicDepth
      rw [Exec.bind_error hcheck, SimpleAmqpTransport.requireChannel_bind, hnone]
      rfl
    · unfold topicDepth
      rw [Exec.bind_error hcheck]

/-- The transport has a channel, and goes by this call when it is asked for a depth. -/
structure Remembers (call : Ensure) (d : Deployment) : Prop where
  channel : d.transport.channel.isSome = true
  topicDeclared : d.transport.memory.topicDeclared = true
  topic : d.transport.memory.topic = call.topic
  topicOptions : d.transport.memory.topicOptions = call.options

/-- A call that returns has declared its destinations, and is the one remembered. -/
theorem ensureTopic_ok {call : Ensure} {d d' : Deployment}
    (h : ensureTopic call.topic call.options call.env d = (.ok (), d')) :
    (∀ pair ∈ call.destinations, Declared pair.1 pair.2 d') ∧ Remembers call d' := by
  have hextends := extends_ensureTopic call.topic call.options call.env d
  rw [h] at hextends
  obtain ⟨_, d₁, hcheck, hrest⟩ := Exec.bind_eq_ok h
  obtain ⟨_, d₂, hforensic, hrest⟩ := Exec.bind_eq_ok hrest
  obtain ⟨_, d₃, hlibrary, hrest⟩ := Exec.bind_eq_ok hrest
  obtain ⟨messages, d₄, hqueue, hstore⟩ := Exec.bind_eq_ok hrest
  obtain rfl := (Prod.mk.inj hstore).2
  have hchannel : d.transport.channel.isSome = true := by
    rcases requireChannel_cases "ensureTopic" d with ⟨hsome, -⟩ | ⟨-, hnone⟩
    · exact hsome
    · exact absurd (congrArg Prod.fst (hcheck.symm.trans hnone)) (by simp)
  have hrest : Extends d₂ d₄ := by
    have hfirst := extends_library call.env.queue d₂
    have hthen := extends_declareQueue call.topic (queueFlags call.options)
      (queueArguments call.topic call.options) d₃
    rw [hlibrary] at hfirst
    rw [hqueue] at hthen
    exact IsTrans.trans _ _ _ hfirst hthen
  refine ⟨fun pair hpair => ?_, ⟨hextends.2 ▸ hchannel, rfl, rfl, rfl⟩⟩
  rcases List.mem_append.mp hpair with hpair | hpair
  · cases hdeadLetter : call.options.deadLetter with
    | false =>
        rw [hdeadLetter] at hpair
        exact absurd hpair List.not_mem_nil
    | true =>
        rw [hdeadLetter, if_pos rfl] at hpair
        obtain rfl := List.mem_singleton.mp hpair
        unfold declareForensic at hforensic
        rw [hdeadLetter, if_pos rfl] at hforensic
        obtain ⟨_, e₁, -, hforensic⟩ := Exec.bind_eq_ok hforensic
        obtain ⟨_, e₂, -, hforensic⟩ := Exec.bind_eq_ok hforensic
        obtain ⟨_, e₃, hdeclare, hbind⟩ := Exec.bind_eq_ok hforensic
        have hbound : Extends e₃ d₂ := by
          have hlast := extends_library call.env.bind e₃
          rw [hbind] at hlast
          exact hlast
        have hdeclared := (declared_of_declareQueue hdeclare).mono hbound
        exact hdeclared.mono hrest
  · obtain rfl := List.mem_singleton.mp hpair
    have hdeclared : Declared call.topic call.options d₄ := declared_of_declareQueue hqueue
    exact hdeclared

/-- After calls that all returned, every destination is declared as it was asked for, and
the last call is the one remembered. -/
theorem ensureTopics_ok {calls : List Ensure} {d d' : Deployment}
    (h : ensureTopics calls d = (.ok (), d')) :
    Extends d d' ∧
      (∀ call ∈ calls, ∀ pair ∈ call.destinations, Declared pair.1 pair.2 d') ∧
      ∀ last ∈ calls.getLast?, Remembers last d' := by
  induction calls generalizing d with
  | nil =>
      obtain rfl := (Prod.mk.inj h).2
      exact ⟨Std.Refl.refl d, fun _ hcall => absurd hcall List.not_mem_nil,
        fun _ hlast => absurd hlast (by simp)⟩
  | cons call rest ih =>
      obtain ⟨_, d₁, hfirst, hrest⟩ := Exec.bind_eq_ok h
      obtain ⟨hextends, hdeclared, hlast⟩ := ih hrest
      obtain ⟨hhere, hremembers⟩ := ensureTopic_ok hfirst
      have hbefore := extends_ensureTopic call.topic call.options call.env d
      rw [hfirst] at hbefore
      refine ⟨IsTrans.trans _ _ _ hbefore hextends, fun other hother pair hpair => ?_,
        fun last hmem => ?_⟩
      · rcases List.mem_cons.mp hother with rfl | hother
        · exact (hhere pair hpair).mono hextends
        · exact hdeclared other hother pair hpair
      · cases rest with
        | nil =>
            obtain rfl := (Prod.mk.inj hrest).2
            obtain rfl : call = last := by simpa using hmem
            exact hremembers
        | cons next rest => exact hlast last (by simpa using hmem)

/-! ## What a question for a depth declares -/

/-- The two sets of options declare a queue alike. -/
def Alike (name : Topic) (options options' : TopicOptions) : Prop :=
  queueFlags options = queueFlags options' ∧
    queueArguments name options = queueArguments name options'

/-- A question for the depth of a queue declares it as it is, so it is answered and changes
nothing; a purge removes its messages and changes nothing else. -/
structure Harmless (name : Topic) (d : Deployment) : Prop where
  repeats : Declared name (d.transport.depthOptions name) d
  depth : ∃ messages, topicDepth name d = (.ok messages, d)
  purge : ∃ messages, purgeTopic name d = (.ok messages, purged name d)

theorem Declared.alike {name : Topic} {options options' : TopicOptions} {d : Deployment}
    (h : Declared name options d) (h' : Declared name options' d) :
    Alike name options options' := by
  obtain ⟨queue, hqueue, hflags, harguments⟩ := h
  obtain ⟨queue', hqueue', hflags', harguments'⟩ := h'
  obtain rfl : queue = queue' := Option.some.inj (hqueue.symm.trans hqueue')
  exact ⟨hflags.symm.trans hflags', harguments.symm.trans harguments'⟩

theorem Declared.of_alike {name : Topic} {options options' : TopicOptions} {d : Deployment}
    (h : Declared name options d) (halike : Alike name options options') :
    Declared name options' d := by
  obtain ⟨queue, hqueue, hflags, harguments⟩ := h
  exact ⟨queue, hqueue, hflags.trans halike.1, harguments.trans halike.2⟩

/-- All it takes is that the options come out as they were declared. -/
theorem harmless_iff {name : Topic} {d : Deployment}
    (hchannel : d.transport.channel.isSome = true) :
    Harmless name d ↔ Declared name (d.transport.depthOptions name) d := by
  refine ⟨fun h => h.repeats, fun h => ?_⟩
  obtain ⟨queue, hqueue, hflags, harguments⟩ := id h
  have hdepth : topicDepth name d = (.ok queue.messages, d) := by
    rw [topicDepth_apply hchannel, declareQueue_some hqueue, if_pos (.inr ⟨hflags, harguments⟩)]
  refine ⟨h, ⟨_, hdepth⟩, queue.messages, ?_⟩
  have hpurge : purgeQueue name d = (.ok (), purged name d) := by
    unfold purgeQueue
    rw [Exec.get_bind, if_neg (by simp [hqueue])]
    rfl
  unfold purgeTopic
  rw [Exec.bind_ok (requireChannel_ok hchannel "purgeTopic"), Exec.bind_ok hdepth,
    Exec.bind_ok hpurge]
  rfl

/-! ## Which options come out as they were declared -/

/-- The name is one of the forensic destinations'. -/
def isForensic (name : Topic) : Bool := kDeadLetterPrefix.toList.isPrefixOf name.toList

theorem isForensic_deadLetterTopic (source : Topic) : isForensic (deadLetterTopic source) = true := by
  rw [isForensic, deadLetterTopic, String.toList_append, List.isPrefixOf_iff_prefix]
  exact List.prefix_append _ _

/-- The source is read back from the name of its forensic destination. -/
theorem depthOptions_deadLetterTopic (t : SimpleAmqpTransport) (source : Topic) :
    t.depthOptions (deadLetterTopic source) = forensicTopicOptions source := by
  have hforensic := isForensic_deadLetterTopic source
  unfold isForensic at hforensic
  unfold depthOptions
  rw [if_pos hforensic, deadLetterTopic, String.toList_append, ← String.length_toList,
    List.drop_left, String.ofList_toList]

/-- The options declare a queue as the defaults do. -/
structure LikeDefault (options : TopicOptions) : Prop where
  durable : options.durable = true
  shared : options.shared = true
  deleteWhenUnused : options.deleteWhenUnused = false
  deadLetter : options.deadLetter = true
  maxLength : options.maxLength = 0

instance (options : TopicOptions) : Decidable (LikeDefault options) :=
  decidable_of_iff (options.durable = true ∧ options.shared = true ∧
      options.deleteWhenUnused = false ∧ options.deadLetter = true ∧ options.maxLength = 0)
    ⟨fun ⟨hdurable, hshared, hdelete, hdeadLetter, hlength⟩ =>
        ⟨hdurable, hshared, hdelete, hdeadLetter, hlength⟩,
      fun h => ⟨h.durable, h.shared, h.deleteWhenUnused, h.deadLetter, h.maxLength⟩⟩

/-- The options declare a queue as those of a forensic destination do.  `maxLength` has 32
bits in the source. -/
structure LikeForensic (options : TopicOptions) : Prop where
  durable : options.durable = true
  shared : options.shared = true
  deleteWhenUnused : options.deleteWhenUnused = false
  deadLetter : options.deadLetter = false
  maxLength : options.maxLength % 2 ^ 32 = kForensicMaxLength
  overflow : options.overflow = .rejectPublish

instance (options : TopicOptions) : Decidable (LikeForensic options) :=
  decidable_of_iff (options.durable = true ∧ options.shared = true ∧
      options.deleteWhenUnused = false ∧ options.deadLetter = false ∧
      options.maxLength % 2 ^ 32 = kForensicMaxLength ∧ options.overflow = .rejectPublish)
    ⟨fun ⟨hdurable, hshared, hdelete, hdeadLetter, hlength, hoverflow⟩ =>
        ⟨hdurable, hshared, hdelete, hdeadLetter, hlength, hoverflow⟩,
      fun h => ⟨h.durable, h.shared, h.deleteWhenUnused, h.deadLetter, h.maxLength, h.overflow⟩⟩

theorem alike_default_iff (name : Topic) (options : TopicOptions) :
    Alike name options {} ↔ LikeDefault options := by
  have hlimit : lengthLimit options = lengthLimit {} ↔ options.maxLength = 0 := by
    have hnone : lengthLimit {} = none := rfl
    rw [hnone]
    unfold lengthLimit
    split
    · next hpos => exact iff_of_false (by simp) (Nat.pos_iff_ne_zero.mp hpos)
    · next hzero => exact iff_of_true rfl (by omega)
  unfold Alike
  rw [queueFlags_eq_iff, queueArguments_eq_iff, hlimit]
  constructor
  · rintro ⟨⟨hdurable, hshared, hdelete⟩, hdeadLetter, hlength⟩
    exact ⟨hdurable, hshared, hdelete, hdeadLetter, hlength⟩
  · intro h
    exact ⟨⟨h.durable, h.shared, h.deleteWhenUnused⟩, h.deadLetter, h.maxLength⟩

theorem alike_forensic_iff (name source : Topic) (options : TopicOptions) :
    Alike name options (forensicTopicOptions source) ↔ LikeForensic options := by
  have hlimit : lengthLimit options = lengthLimit (forensicTopicOptions source) ↔
      options.maxLength % 2 ^ 32 = kForensicMaxLength ∧ options.overflow = .rejectPublish := by
    have hsome : lengthLimit (forensicTopicOptions source) = some (2000, .rejectPublish) := by
      have hcap : (forensicTopicOptions source).maxLength = 2000 := rfl
      have hword : Int.bmod ((2000 : Nat) : Int) (2 ^ 32) = 2000 := by decide
      unfold lengthLimit
      rw [hcap, if_pos (by decide), hword]
      rfl
    have hword : ((options.maxLength : Int).bmod (2 ^ 32) = 2000) ↔
        options.maxLength % 2 ^ 32 = 2000 := by
      rw [Int.bmod_def]
      omega
    rw [hsome, kForensicMaxLength, ← hword]
    unfold lengthLimit
    split
    · rw [Option.some_inj, Prod.mk.injEq]
    · next hzero =>
        have hnone : options.maxLength = 0 := by omega
        rw [hnone]
        simp
  unfold Alike
  rw [queueFlags_eq_iff, queueArguments_eq_iff, hlimit]
  constructor
  · rintro ⟨⟨hdurable, hshared, hdelete⟩, hdeadLetter, hlength, hoverflow⟩
    exact ⟨hdurable, hshared, hdelete, hdeadLetter, hlength, hoverflow⟩
  · intro h
    exact ⟨⟨h.durable, h.shared, h.deleteWhenUnused⟩, h.deadLetter, h.maxLength, h.overflow⟩

/-- The options of this call come out as they were declared. -/
def Recognised (calls : List Ensure) (call : Ensure) : Prop :=
  if isForensic call.topic then LikeForensic call.options
  else calls.getLast?.map Ensure.topic = some call.topic ∨ LikeDefault call.options

instance (calls : List Ensure) (call : Ensure) : Decidable (Recognised calls call) := by
  unfold Recognised
  infer_instance

theorem depthOptions_of_remembers {last : Ensure} {d : Deployment} (h : Remembers last d)
    (name : Topic) :
    d.transport.depthOptions name =
      if isForensic name then
        forensicTopicOptions (String.ofList (name.toList.drop kDeadLetterPrefix.length))
      else if name = last.topic then last.options else {} := by
  unfold depthOptions isForensic
  rw [h.topicDeclared, h.topic, h.topicOptions]
  simp only [true_and]

/-- A call is recognised when its queue is declared again as it was. -/
theorem recognised_of_alike {calls : List Ensure} {last call : Ensure} {d : Deployment}
    (hlast : calls.getLast? = some last) (hremembers : Remembers last d)
    (h : Alike call.topic call.options (d.transport.depthOptions call.topic)) :
    Recognised calls call := by
  rw [depthOptions_of_remembers hremembers] at h
  unfold Recognised
  split
  · next hforensic =>
      rw [if_pos hforensic] at h
      exact (alike_forensic_iff _ _ _).mp h
  · next hforensic =>
      rw [if_neg hforensic] at h
      by_cases htopic : call.topic = last.topic
      · left
        rw [hlast, htopic]
        rfl
      · rw [if_neg htopic] at h
        exact .inr ((alike_default_iff _ _).mp h)

/-- The queue of a recognised call is declared again as it was. -/
theorem declared_of_recognised {calls : List Ensure} {last call : Ensure} {d : Deployment}
    (hlast : calls.getLast? = some last) (hremembers : Remembers last d)
    (hqueue : Declared call.topic call.options d) (hqueueLast : Declared last.topic last.options d)
    (h : Recognised calls call) :
    Declared call.topic (d.transport.depthOptions call.topic) d := by
  rw [depthOptions_of_remembers hremembers]
  unfold Recognised at h
  split at h
  · next hforensic =>
      rw [if_pos hforensic]
      exact hqueue.of_alike ((alike_forensic_iff _ _ _).mpr h)
  · next hforensic =>
      rw [if_neg hforensic]
      by_cases htopic : call.topic = last.topic
      · rw [if_pos htopic, htopic]
        exact hqueueLast
      · rw [if_neg htopic]
        rcases h with hnamed | hdefault
        · rw [hlast] at hnamed
          exact absurd (Option.some.inj hnamed).symm htopic
        · exact hqueue.of_alike ((alike_default_iff _ _).mpr hdefault)

/-- After calls that all returned, it is harmless to ask for the depth of each of their
destinations exactly when each call named the topic of the last one or had options that
declare as the defaults do, or as a forensic destination if its topic is named like one. -/
theorem harmless_iff_recognised {calls : List Ensure} {d d' : Deployment}
    (h : ensureTopics calls d = (.ok (), d')) :
    (∀ call ∈ calls, ∀ pair ∈ call.destinations, Harmless pair.1 d') ↔
      ∀ call ∈ calls, Recognised calls call := by
  obtain ⟨-, hdeclared, hremembers⟩ := ensureTopics_ok h
  have hself : ∀ call : Ensure, (call.topic, call.options) ∈ call.destinations := fun call =>
    List.mem_append_right _ (List.mem_singleton_self _)
  constructor
  · intro hharmless call hcall
    obtain ⟨last, hlast⟩ := Option.isSome_iff_exists.mp
      (List.getLast?_isSome.mpr (List.ne_nil_of_mem hcall))
    have hrepeats := (hharmless call hcall _ (hself call)).repeats
    exact recognised_of_alike hlast (hremembers last hlast)
      ((hdeclared call hcall _ (hself call)).alike hrepeats)
  · intro hrecognised call hcall pair hpair
    obtain ⟨last, hlast⟩ := Option.isSome_iff_exists.mp
      (List.getLast?_isSome.mpr (List.ne_nil_of_mem hcall))
    have hthere := hremembers last hlast
    have hqueue := hdeclared call hcall pair hpair
    rw [harmless_iff hthere.channel]
    rcases List.mem_append.mp hpair with hpair | hpair
    · cases hdeadLetter : call.options.deadLetter with
      | false =>
          rw [hdeadLetter] at hpair
          exact absurd hpair List.not_mem_nil
      | true =>
          rw [hdeadLetter, if_pos rfl] at hpair
          obtain rfl := List.mem_singleton.mp hpair
          rw [depthOptions_deadLetterTopic]
          exact hqueue
    · obtain rfl := List.mem_singleton.mp hpair
      exact declared_of_recognised hlast hthere hqueue
        (hdeclared last (List.mem_of_getLast? hlast) _ (hself last)) (hrecognised call hcall)

/-- A transport that has just connected, and a broker without queues. -/
def connected : Deployment where
  transport := { channel := some {}, connected := true }

/-- Two topics with the options that a caller gets by default. -/
def defaultCalls : List Ensure := [{ topic := "jobs" }, { topic := "results" }]

theorem harmless_iff_recognised_defaultCalls :
    Harmless "jobs" (ensureTopics defaultCalls connected).2 ∧
      Harmless "motus.dead-letter.results" (ensureTopics defaultCalls connected).2 := by
  have hreturned : ensureTopics defaultCalls connected =
      (.ok (), (ensureTopics defaultCalls connected).2) := Prod.ext (by decide +kernel) rfl
  have hharmless := (harmless_iff_recognised hreturned).mpr (by decide +kernel)
  exact ⟨hharmless { topic := "jobs" } (by decide) ("jobs", {}) (by decide),
    hharmless { topic := "results" } (by decide)
      ("motus.dead-letter.results", forensicTopicOptions "results") (by decide)⟩

/-- A topic without a forensic destination, and another one after it. -/
def plainThenDefault : List Ensure :=
  [{ topic := "jobs", options := { deadLetter := false } }, { topic := "results" }]

/-- Both are declared, and the question for the depth of the first is refused. -/
theorem plainThenDefault_refused :
    (ensureTopics plainThenDefault connected).1 = .ok () ∧
      (topicDepth "jobs" (ensureTopics plainThenDefault connected).2).1 =
        .error (.runtimeError "PRECONDITION_FAILED - inequivalent arg for queue 'jobs'") ∧
      ¬ Harmless "jobs" (ensureTopics plainThenDefault connected).2 := by
  have hrefused : (topicDepth "jobs" (ensureTopics plainThenDefault connected).2).1 =
      .error (.runtimeError "PRECONDITION_FAILED - inequivalent arg for queue 'jobs'") := by
    decide +kernel
  refine ⟨by decide +kernel, hrefused, fun h => ?_⟩
  obtain ⟨messages, hdepth⟩ := h.depth
  rw [hdepth] at hrefused
  exact absurd hrefused (by simp)

end Deployment

end Motus.Amqp
