import Motus.InMemory.Bounded
import Motus.Transport.Pressure

set_option autoImplicit false

/-!
# The alarm for a full forensic destination

`forensicPressure` compares a depth with the shipped cap; the overflow switch of
`enqueueLocked` compares the queue with the `maxLength` it was declared with.  Both
are the cap of `forensicTopicOptions`, so the alarm says what the switch will do.

The alarm is compared with what would happen to the next dead letter, in every state
after the source was declared.  The run at the end fills a forensic destination with what
its source refuses, by the account of `Motus.InMemory.Forensic`.
-/

namespace Motus.InMemory

open Motus.Foundation Motus.Transport Broker InMemoryTransport

namespace Broker

/-- A message dead-lettered from `source` now would be stored in its forensic
destination. -/
def Stores (b : Broker) (source : Topic) (message : Held) : Prop :=
  ∃ forensic, b.find (deadLetterTopic source) = some forensic ∧
    (deadLetter source message b).2.find (deadLetterTopic source) =
      some { forensic with messages := forensic.messages ++ [b.renumbered message] }

variable {b : Broker} {source : Topic} {forensic : TopicState}

/-- A forensic destination stores what it is sent while it has room. -/
theorem stores_iff (hdead : b.deadLetters source = true)
    (hforensic : b.find (deadLetterTopic source) = some forensic)
    (hagrees : agrees forensic.options (forensicTopicOptions source) = true) (message : Held) :
    Stores b source message ↔ forensic.full = false := by
  obtain ⟨fuel, hfuel⟩ := exists_fuel (b := b) (by rw [hforensic, Option.isSome_some])
  obtain ⟨b', hrun, hbecomes⟩ := deadLetterVia_displaced hdead hforensic
    (overflows_of_agrees hagrees) fuel message
  have hafter : (deadLetter source message b).2.find (deadLetterTopic source) =
      some (forensic.offeredTo (b.renumbered message)) := by
    rw [deadLetter, deadLetterLocked, Exec.get_bind, hfuel, hrun]
    exact hbecomes.self
  have hpolicy : forensic.options.overflow = .rejectPublish := by
    simp only [agrees, forensicTopicOptions, Bool.and_eq_true, beq_iff_eq] at hagrees
    exact hagrees.2
  unfold Stores
  rw [hafter, hforensic]
  unfold TopicState.offeredTo
  cases hfull : forensic.full with
  | false =>
      rw [if_neg Bool.false_ne_true]
      exact ⟨fun _ => rfl, fun _ => ⟨forensic, rfl, rfl⟩⟩
  | true =>
      rw [if_pos rfl, hpolicy]
      refine ⟨?_, fun h => absurd h (by simp)⟩
      rintro ⟨state, hstate, hstored⟩
      -- the queue has not grown
      obtain rfl := Option.some.inj hstate
      have hlength := congrArg (fun state => state.messages.length) (Option.some.inj hstored)
      simp at hlength

/-- The alarm rings exactly when the queue is full. -/
theorem forensicPressure_depth_iff
    (hagrees : agrees forensic.options (forensicTopicOptions source) = true)
    (hlength : forensic.messages.length < 2 ^ 32) :
    forensicPressure (.ofNat forensic.messages.length) (.ofNat kForensicMaxLength) = .atCap ↔
      forensic.full = true := by
  have hlimit : forensic.options.maxLength = kForensicMaxLength := by
    simp only [agrees, forensicTopicOptions, Bool.and_eq_true, beq_iff_eq] at hagrees
    exact hagrees.1.2
  rw [forensicPressure_eq_atCap_iff (by decide), UInt32.toNat_ofNat_of_lt' hlength,
    TopicState.full, hlimit]
  simp [kForensicMaxLength]

end Broker

namespace System

theorem topicDepth_of_find {b : Broker} {t : InMemoryTransport} (i : Nat) {topic : Topic}
    {state : TopicState} (hconnected : t.connected = true) (hfind : b.find topic = some state)
    (hlength : state.messages.length < 2 ^ 32) :
    (InMemoryTransport.topicDepth topic ⟨b, t, i⟩).1 = .ok state.messages.length := by
  simp only [InMemoryTransport.topicDepth, Exec.get_bind]
  rw [if_neg (by simp [hconnected]), onBroker_apply]
  simp only [Broker.depth, Exec.get_bind, hfind, Exec.pure_apply]
  rw [Nat.mod_eq_of_lt hlength]

/-- An `ensureTopic` of `source` with a forensic destination is about to return. -/
def Provisions (source : Topic) (s : System) (i : Nat) : Prop :=
  ∃ t options, s.transports[i]? = some t ∧ t.destroyed = false ∧
    t.declaring = some (source, options) ∧ options.deadLetter = true ∧
    (Broker.ensureTopic source options s.broker).1 = .ok ()

/-- After that the source dead-letters, into a destination as the shared declaration has
it, in every state of the run. -/
theorem provisioned_runFrom {source : Topic} {before : List Action} {i : Nat}
    (h : Provisions source (machine.run before) i) (after : List Action) :
    let s := machine.run (before ++ .ensureTopicSource i :: after)
    s.broker.deadLetters source = true ∧ ∃ forensic,
      s.broker.find (deadLetterTopic source) = some forensic ∧
        agrees forensic.options (forensicTopicOptions source) = true := by
  have hstands : machine.Always (fun s => Standing s ∧ GroupsStand s) before :=
    .of_step before (fun s a h => ⟨h.1.step a, h.2.step h.1 a⟩) ⟨standing_init, groupsStand_init⟩
  obtain ⟨hstanding, hgroups⟩ : _ ∧ _ := hstands.last
  obtain ⟨t, options, hlookup, halive, hdeclaring, hdead, hok⟩ := h
  have hready := hgroups.declaring t (List.mem_of_getElem? hlookup) source options hdeclaring hdead
  have hafter : ((machine.run before).step (.ensureTopicSource i)).broker =
      (Broker.ensureTopic source options (machine.run before).broker).2 := by
    simp only [System.step]
    rw [call_of_may _ hlookup (by simp [halive])]
    simp only [endEnsureTopic, Exec.get_bind, hdeclaring, setSelf_bind, ensureTopicSource,
      onBroker_apply]
  obtain ⟨stored, hstored, hagrees⟩ := agrees_of_ensureTopic hok
  rw [← hafter] at hstored
  -- from here on topics only keep their options
  have hkept : machine.AlwaysFrom
      (fun s => Standing s ∧ s.broker.ForensicReady source ∧
        s.broker.optionsOf source = some stored)
      ((machine.run before).step (.ensureTopicSource i)) after :=
    .of_step after
      (fun s a h => ⟨h.1.step a, h.2.1.mono (h.1.extends a), h.1.extends a source stored h.2.2⟩)
      ⟨hstanding.step _, hready.mono (hstanding.extends _), hstored⟩
  obtain ⟨-, ⟨options', hoptions', hagrees'⟩, hstored'⟩ : _ ∧ _ ∧ _ := hkept.last
  obtain ⟨forensic, hfind, rfl⟩ := Option.map_eq_some_iff.mp hoptions'
  obtain ⟨state, hsource, rfl⟩ := Option.map_eq_some_iff.mp hstored'
  dsimp only
  rw [Machine.run, Machine.runFrom_append]
  refine ⟨?_, forensic, hfind, hagrees'⟩
  simp only [agrees, Bool.and_eq_true, beq_iff_eq] at hagrees
  exact (deadLetters_of_find hsource).trans (hagrees.1.1.2.trans hdead)

/-- In every state of every run after `source` was declared with its forensic
destination, the alarm for what `topicDepth` answers rings exactly when that
destination would refuse the next dead letter of `source`; and the classification of
any 32-bit depth grows with it, its threshold being nine tenths of the cap. -/
theorem forensicPressure_exact :
    (∀ (source : Topic) (before after : List Action) (i : Nat),
      Provisions source (machine.run before) i →
      let s := machine.run (before ++ .ensureTopicSource i :: after)
      ∃ forensic, s.broker.find (deadLetterTopic source) = some forensic ∧
        (forensic.messages.length < 2 ^ 32 →
          ∀ (j : Nat) (t : InMemoryTransport), s.transports[j]? = some t → t.connected = true →
            ∃ depth : Nat,
              (InMemoryTransport.topicDepth (deadLetterTopic source) ⟨s.broker, t, j⟩).1 =
                .ok depth ∧
              ∀ message, forensicPressure (.ofNat depth) (.ofNat kForensicMaxLength) = .atCap ↔
                ¬ Stores s.broker source message)) ∧
    ∀ depth cap : UInt32, 0 < cap →
      (∀ depth', depth ≤ depth' →
        (forensicPressure depth cap).severity ≤ (forensicPressure depth' cap).severity) ∧
      (forensicPressure depth cap = .nearCap ↔
        (9 / 10 : ℚ) ≤ (depth.toNat : ℚ) / cap.toNat ∧ (depth.toNat : ℚ) / cap.toNat < 1) := by
  constructor
  · intro source before after i hprovisions
    obtain ⟨hdead, forensic, hfind, hagrees⟩ := provisioned_runFrom hprovisions after
    refine ⟨forensic, hfind, fun hlength j t _ hconnected => ?_⟩
    refine ⟨_, topicDepth_of_find j hconnected hfind hlength, fun message => ?_⟩
    rw [forensicPressure_depth_iff hagrees hlength, stores_iff hdead hfind hagrees,
      Bool.not_eq_false]
  · intro depth cap hcap
    have hpos : 0 < cap.toNat := hcap
    exact ⟨fun depth' => severity_forensicPressure_le hpos,
      forensicPressure_eq_nearCap_iff_div hpos⟩

/-- The topic is full and dead-letters what it refuses, and transport `i` can send to it. -/
structure Refuses (topic : Topic) (i : Nat) (sendOptions : SendOptions) (s : System) : Prop where
  full : ∃ state, s.broker.find topic = some state ∧ state.full = true ∧
    state.options.group = "" ∧ state.options.deadLetter = true ∧
    state.options.overflow = .rejectPublishDlx
  publishes : ∃ t, s.transports[i]? = some t ∧ t.publishes sendOptions = true

section Refuses

variable {topic : Topic} {i : Nat} {sendOptions : SendOptions} {s : System}

/-- What is sent to such a topic is a failure of it, and goes nowhere else. -/
theorem Refuses.failures_eq (h : Refuses topic i sendOptions s) (body : Bytes) :
    LeavesForensic topic s (.send i topic body sendOptions) ∧
      s.failures topic (.send i topic body sendOptions) = [body] := by
  obtain ⟨⟨state, hfind, hfull, hgroup, hdead, hpolicy⟩, t, hlookup, ht⟩ := h
  have hreceivers : s.broker.receivers topic sendOptions.route = [topic] := by
    simp only [receivers, hfind, Option.getD_some, hgroup, if_true]
  constructor
  · intro _ _ _ hmem
    rw [hreceivers, List.mem_singleton] at hmem
    exact deadLetterTopic_ne topic hmem
  · have hoverflows : state.overflows = true := by
      rw [TopicState.overflows, hfull, hdead, hpolicy]
      rfl
    simp only [failures, hlookup, ht, hreceivers, List.mem_singleton, and_self, if_true,
      overflowed, hfind, Option.bind_some, TopicState.displaced, hoverflows, hpolicy,
      Option.map_some, fresh, Option.toList_some]

/-- The step lemma: it refuses the next send as well. -/
theorem Refuses.step (h : Refuses topic i sendOptions s) (hprovided : Provided s) (body : Bytes) :
    Refuses topic i sendOptions (s.step (.send i topic body sendOptions)) := by
  obtain ⟨⟨state, hfind, hfull, hgroup, hdead, hpolicy⟩, t, hlookup, ht⟩ := h
  have hrefused : state.accepts = false := by
    rw [TopicState.accepts, hfull, hpolicy]
    rfl
  obtain ⟨message, b', rfl, hrun, hself⟩ :=
    publish_ungrouped hprovided.forensic hfind hgroup body sendOptions.route
  rw [TopicState.offeredTo_of_refuses hrefused] at hself
  obtain ⟨stats, hstep⟩ := step_send hlookup ht topic message.body
  rw [hstep, hrun]
  refine ⟨⟨state, hself, hfull, hgroup, hdead, hpolicy⟩, { t with stats := stats }, ?_, ht⟩
  exact List.getElem?_set_self (List.getElem?_eq_some_iff.mp hlookup).1

/-- The run lemma: a body that is sent over and over is a failure each time. -/
theorem Preserved.refused {failed : List Bytes} (hpreserved : Preserved topic failed s)
    (h : Refuses topic i sendOptions s) (hprovided : Provided s) (body : Bytes) (n : Nat) :
    Preserved topic (failed ++ List.replicate n body)
        (machine.runFrom s (List.replicate n (.send i topic body sendOptions))) ∧
      Refuses topic i sendOptions
        (machine.runFrom s (List.replicate n (.send i topic body sendOptions))) := by
  induction n generalizing s failed with
  | zero =>
      rw [List.replicate_zero, List.replicate_zero, List.append_nil]
      exact ⟨hpreserved, h⟩
  | succ n ih =>
      obtain ⟨hleaves, hfailures⟩ := h.failures_eq body
      have hnext := hpreserved.step hprovided.standing hprovided.forensic hleaves
      rw [hfailures] at hnext
      have hrest := ih hnext (h.step hprovided body) (hprovided.step _)
      rw [List.append_assoc, List.singleton_append, ← List.replicate_succ] at hrest
      exact hrest

end Refuses

/-- A source that holds one message is about to be declared with its forensic destination. -/
def provisioningRun : List Action :=
  [.create, .connect 0, .ensureTopic 0 "jobs" { maxLength := 1, overflow := .rejectPublishDlx }]

/-- A message of it is rejected, and another one fills it. -/
def rejectingRun : List Action :=
  [.send 0 "jobs" [1] { durable := false }, .subscribe 0 "jobs" true, .pump 0,
    .handlerReturns 0 (.returned .reject), .send 0 "jobs" [2] { durable := false }]

/-- It refuses as many messages as its forensic destination may hold. -/
def overflowingRun : List Action :=
  List.replicate kForensicMaxLength (.send 0 "jobs" [3] { durable := false })

/-- Its forensic destination was then offered all of these. -/
theorem preserved_overflowingRun :
    (∃ failed, Preserved "jobs" (failed ++ List.replicate kForensicMaxLength [3])
      (machine.runFrom (machine.run (provisioningRun ++ .ensureTopicSource 0 :: rejectingRun))
        overflowingRun)) ∧
    Refuses "jobs" 0 { durable := false }
      (machine.runFrom (machine.run (provisioningRun ++ .ensureTopicSource 0 :: rejectingRun))
        overflowingRun) := by
  have hstored : (machine.run
      (provisioningRun ++ .ensureTopicSource 0 :: rejectingRun)).broker.find "jobs" = some
        { messages := [{ sequence := 3, body := [2], copy := 3 }]
          options := { maxLength := 1, overflow := .rejectPublishDlx }
          binding := "jobs" } := by decide +kernel
  have hpublishes : ((machine.run (provisioningRun ++ .ensureTopicSource 0 ::
      rejectingRun)).transports[0]?).map (·.publishes { durable := false }) = some true := by
    decide +kernel
  have hpreserved := @Preserved.runFrom "jobs" machine.init []
    (provisioningRun ++ .ensureTopicSource 0 :: rejectingRun) (preserved_init "jobs")
    provided_init (by decide +kernel)
  obtain ⟨hfailed, hrefuses⟩ := hpreserved.refused
    ⟨⟨_, hstored, by decide, rfl, rfl, rfl⟩, Option.map_eq_some_iff.mp hpublishes⟩
    (always_provided _).last [3] kForensicMaxLength
  exact ⟨⟨_, hfailed⟩, hrefuses⟩

/-- The forensic destination is full: the alarm rings, and the next dead letter is lost. -/
theorem forensicPressure_exact_overflowingRun :
    let s := machine.run (provisioningRun ++ .ensureTopicSource 0 :: (rejectingRun ++ overflowingRun))
    ∃ t, s.transports[0]? = some t ∧
      (InMemoryTransport.topicDepth (deadLetterTopic "jobs") ⟨s.broker, t, 0⟩).1 =
        .ok kForensicMaxLength ∧
      ∀ message, ¬ Stores s.broker "jobs" message := by
  have hprovisions : Provisions "jobs" (machine.run provisioningRun) 0 :=
    ⟨_, _, rfl, rfl, rfl, rfl, by decide +kernel⟩
  obtain ⟨-, forensic, hfind, hagrees⟩ :=
    provisioned_runFrom hprovisions (rejectingRun ++ overflowingRun)
  obtain ⟨state, hstate, hpressure⟩ := forensicPressure_exact.1 "jobs" provisioningRun
    (rejectingRun ++ overflowingRun) 0 hprovisions
  obtain rfl := Option.some.inj (hfind.symm.trans hstate)
  have hsplit : machine.run
      (provisioningRun ++ .ensureTopicSource 0 :: (rejectingRun ++ overflowingRun)) =
      machine.runFrom (machine.run (provisioningRun ++ .ensureTopicSource 0 :: rejectingRun))
        overflowingRun := by
    have happend := Machine.runFrom_append (m := machine) machine.init
      (provisioningRun ++ .ensureTopicSource 0 :: rejectingRun) overflowingRun
    rwa [List.append_assoc, List.cons_append] at happend
  obtain ⟨⟨failed, hrefused⟩, -, t, hlookup, ht⟩ := preserved_overflowingRun
  rw [← hsplit] at hrefused hlookup
  revert hfind hstate hpressure hrefused hlookup
  generalize machine.run
    (provisioningRun ++ .ensureTopicSource 0 :: (rejectingRun ++ overflowingRun)) = s
  intro hfind hstate hpressure hrefused hlookup
  have hlength : forensic.messages.length = kForensicMaxLength := by
    have hbodies := congrArg List.length (hrefused.records forensic hfind hagrees).first
    rw [List.length_map, List.length_take, List.length_append, List.length_replicate] at hbodies
    omega
  have hconnected : t.connected = true := by
    simp only [InMemoryTransport.publishes, Bool.and_eq_true] at ht
    exact ht.1.2
  have hsize : forensic.messages.length < 2 ^ 32 := by
    rw [hlength]
    decide
  obtain ⟨depth, hdepth, hrings⟩ := hpressure hsize 0 t hlookup hconnected
  -- the depth that is asked for is the length of the queue
  have hanswer := hdepth.symm.trans (topicDepth_of_find 0 hconnected hfind hsize)
  obtain rfl := (Except.ok.inj hanswer).trans hlength
  exact ⟨t, hlookup, hdepth, fun message => (hrings message).mp (by decide)⟩

end System

end Motus.InMemory
