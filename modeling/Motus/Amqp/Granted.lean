import Motus.Amqp.Routes

set_option autoImplicit false

/-!
# What a declaration is granted

A request is put on the channel and answered in order, so that what was asked for on a
channel is what was granted followed by what still waits.  A wait that returns has seen
its own request answered, which is the last one made: nothing waits any more, and
everything that was asked for is granted.

From this a declaration that returns has been granted, after what was waiting before it,
exactly the requests listed by `requests`, and no other request.
-/

namespace Motus.Amqp

open Motus.Foundation Motus.Transport AmqpConnection

namespace Session

/-- The requests granted on the channel, oldest first. -/
def granted (s : Session) : List Request := (s.channel.map Channel.granted).getD []

/-- The requests that wait for an answer on the channel, oldest first. -/
def waiting (s : Session) : List Request := (s.channel.map Channel.pending).getD []

/-- Everything that was asked for on the channel: what was granted, and what waits. -/
def asked (s : Session) : List Request := s.granted ++ s.waiting

/-- The requests by which a destination gets into its group, if it has one: the exchange
comes before the queue, the binding after it. -/
def requests (topic : Topic) (options : TopicOptions) : List Request :=
  (if options.group = "" then []
    else [.declareExchange options.group (amqpExchangeType options.routing) options.durable]) ++
  [.declareQueue topic (queueFlags options) (queueArguments topic options)] ++
  (if options.group = "" then []
    else [.bindQueue options.group topic (bindingKey topic options)])

/-- The answer being waited for comes after everything that was asked for so far, or will
not come any more. -/
inductive Awaits (requests : List Request) (s : Session) : Prop where
  | answer (ch : Channel) (hchannel : s.channel = some ch)
      (hasked : ch.granted ++ ch.pending = requests)
      (hdone : s.answer.done = true ↔ ch.pending = [])
  /-- the channel was closed with requests on it -/
  | lost (hdone : s.answer.done = false) (hpending : s.waiting = [])

section Awaits

variable {requests : List Request} {s s' : Session}

/-- Only the requests and the answer count. -/
theorem Awaits.congr (h : Awaits requests s) (hanswer : s'.answer = s.answer)
    (hchannel : ∀ ch, s.channel = some ch → ∃ ch', s'.channel = some ch' ∧
      ch'.granted = ch.granted ∧ ch'.pending = ch.pending)
    (hnone : s.channel = none → s'.channel = none) : Awaits requests s' := by
  cases h with
  | answer ch hch hasked hdone =>
      obtain ⟨ch', hch', hgranted, hpending⟩ := hchannel ch hch
      refine .answer ch' hch' ?_ ?_
      · rw [hgranted, hpending, hasked]
      · rw [hanswer, hpending, hdone]
  | lost hdone hpending =>
      refine .lost (by rw [hanswer, hdone]) ?_
      cases hch : s.channel with
      | none => rw [waiting, hnone hch]; rfl
      | some ch =>
          obtain ⟨ch', hch', -, hsame⟩ := hchannel ch hch
          rw [waiting, hch] at hpending
          rw [waiting, hch', Option.map_some, Option.getD_some, hsame]
          exact hpending

/-- The oldest request is answered, and with it, if it is the last, the wait. -/
theorem awaits_answered (count : Nat) :
    Exec.Along (OnOwner (Exec.Keeps (Awaits requests))) (react (.answered count)) := by
  rintro ⟨c, s⟩ h
  simp only [Session.react, Exec.get_bind]
  cases hchannel : s.channel with
  | none => exact h
  | some ch =>
      dsimp only
      cases hpending : ch.pending with
      | nil => exact h
      | cons request rest =>
          cases h with
          | lost hdone hnone =>
              rw [waiting, hchannel, Option.map_some, Option.getD_some, hpending] at hnone
              exact absurd hnone (by simp)
          | answer ch' hch' hasked hdone =>
              obtain rfl : ch = ch' := Option.some.inj (hchannel.symm.trans hch')
              have hsettled : (ch.settleRequest request rest).granted ++
                  (ch.settleRequest request rest).pending = requests := by
                rw [← hasked, hpending]
                cases request <;> simp [Channel.settleRequest]
              have hrest : (ch.settleRequest request rest).pending = rest := by
                cases request <;> rfl
              dsimp only
              unfold modifyChannel Session.modifySession
              rw [Exec.modify_bind]
              split
              · next hlast =>
                  refine .answer (ch.settleRequest request rest) ?_ hsettled ?_
                  · exact congrArg (Option.map _) hchannel
                  · rw [hrest, hlast]
                    exact iff_of_true rfl rfl
              · next hmore =>
                  refine .answer (ch.settleRequest request rest) ?_ hsettled ?_
                  · exact congrArg (Option.map _) hchannel
                  · rw [hrest]
                    refine iff_of_false (fun hnow => ?_) hmore
                    have hempty := hdone.mp hnow
                    rw [hpending] at hempty
                    exact absurd hempty (by simp)

/-- The requests that wait fail together. -/
theorem awaits_failed (message : Option String) :
    Exec.Along (OnOwner (Exec.Keeps (Awaits requests))) (react (.failed message)) := by
  rintro ⟨c, s⟩ h
  simp only [Session.react, Exec.get_bind]
  cases hchannel : s.channel with
  | none => exact h
  | some ch =>
      dsimp only
      unfold modifyChannel Session.modifySession
      rw [Exec.modify_bind]
      split
      · next hpending =>
          refine h.congr rfl (fun ch' hch' => ?_) fun hnone => ?_
          · obtain rfl : ch = ch' := Option.some.inj (hchannel.symm.trans hch')
            exact ⟨_, congrArg (Option.map _) hchannel, rfl, hpending.symm⟩
          · exact absurd (hchannel.symm.trans hnone) (by simp)
      · next hpending =>
          have hundone : s.answer.done = false := by
            cases h with
            | lost hdone hnone => exact hdone
            | answer ch' hch' hasked hdone =>
                obtain rfl : ch = ch' := Option.some.inj (hchannel.symm.trans hch')
                exact Bool.eq_false_iff.mpr fun hnow => hpending (hdone.mp hnow)
          refine .lost hundone ?_
          change (Option.map Channel.pending (Option.map _ s.channel)).getD [] = []
          rw [hchannel]
          rfl

/-- A delivery concerns no request. -/
theorem awaits_received (body : Bytes) (redelivered : Bool) (outcome : HandlerOutcome)
    (out : Outbound) : Exec.Along (OnOwner (Exec.Keeps (Awaits requests)))
      (react (.received body redelivered outcome out)) := by
  rintro ⟨c, s⟩ h
  simp only [Session.react, Exec.get_bind]
  cases hchannel : s.channel with
  | none => exact h
  | some ch =>
      dsimp only
      split
      · unfold Session.modifySession
        rw [Exec.modify_bind]
        have hhandled := handled_onReceived (ch.lastTag + 1) outcome out
          ⟨c, arrived ch body redelivered s⟩
        have harrived : Awaits requests (arrived ch body redelivered s) := by
          refine h.congr rfl (fun ch' hch' => ?_) fun hnone => ?_
          · obtain rfl : ch = ch' := Option.some.inj (hchannel.symm.trans hch')
            exact ⟨_, rfl, rfl, rfl⟩
          · exact absurd (hchannel.symm.trans hnone) (by simp)
        have hsame : ∀ s', Handled (ch.lastTag + 1) (arrived ch body redelivered s) s' →
            s'.answer = (arrived ch body redelivered s).answer ∧
              s'.channel = (arrived ch body redelivered s).channel := by
          rintro s' (_ | ⟨_ | _ | _ | _⟩) <;> exact ⟨rfl, rfl⟩
        obtain ⟨hanswer, hsamech⟩ := hsame _ hhandled
        exact harrived.congr hanswer (fun ch' hch' => ⟨ch', hsamech.trans hch', rfl, rfl⟩)
          fun hnone => hsamech.trans hnone
      · exact h

theorem awaits_react (event : ChannelEvent) :
    Exec.Along (OnOwner (Exec.Keeps (Awaits requests))) (react event) := by
  cases event with
  | answered count => exact awaits_answered count
  | failed message => exact awaits_failed message
  | cancelled topic =>
      rintro ⟨c, s⟩ h
      refine h.congr rfl (fun ch hch => ?_) fun hnone => ?_
      · exact ⟨_, congrArg (Option.map _) hch, rfl, rfl⟩
      · exact congrArg (Option.map _) hnone
  | received body redelivered outcome out => exact awaits_received body redelivered outcome out

end Awaits

/-! ## The requests of a declaration -/

theorem asked_of_channel {s : Session} {ch : Channel} (h : s.channel = some ch) :
    s.asked = ch.granted ++ ch.pending := by
  rw [asked, granted, waiting, h]
  rfl

theorem granted_of_waiting {s : Session} (h : s.waiting = []) : s.granted = s.asked := by
  rw [asked, h, List.append_nil]

theorem asked_modifyChannel {f : Channel → Channel} (w : Wire Session)
    (hf : ∀ ch, (f ch).granted = ch.granted ∧ (f ch).pending = ch.pending) :
    (modifyChannel f w).2.owner.asked = w.owner.asked := by
  cases hch : w.owner.channel with
  | none =>
      have hnone : (modifyChannel f w).2.owner.channel = none := congrArg (Option.map f) hch
      rw [asked, asked, granted, granted, waiting, waiting, hch, hnone]
  | some ch =>
      have hsome : (modifyChannel f w).2.owner.channel = some (f ch) :=
        congrArg (Option.map f) hch
      rw [asked_of_channel hch, asked_of_channel hsome, (hf ch).1, (hf ch).2]

section Declare

variable {w w' : Wire Session}

/-- A request comes after those that wait, or its failure is noted. -/
theorem submit_cases {request : Request} {out : Outbound}
    (h : submit request out w = (.ok (), w')) :
    (∃ c, w' = ⟨c, { w.owner with answer := { failure := "Frame could not be sent" } }⟩) ∨
      ∃ c ch, w.owner.channel = some ch ∧ w' = ⟨c, { w.owner with
        channel := some { ch with pending := ch.pending ++ [request] } }⟩ := by
  unfold submit at h
  rcases emit_cases out w with ⟨hsend, hrun⟩ | ⟨hsend, c, hrun | ⟨exn, hrun⟩⟩
  · have hpost : post request out w = (.ok false, w) := by
      unfold post
      rw [Exec.bind_ok hrun]
      rfl
    rw [Exec.bind_ok hpost] at h
    exact .inl ⟨w.connection, (congrArg Prod.snd h).symm⟩
  · obtain ⟨ch, hch⟩ : ∃ ch, w.owner.channel = some ch := by
      unfold isSendable at hsend
      cases hchannel : w.owner.channel with
      | none => rw [hchannel] at hsend; exact absurd hsend Bool.false_ne_true
      | some ch => exact ⟨ch, rfl⟩
    have hpost : post request out w = (.ok true, ⟨c, { w.owner with
        channel := w.owner.channel.map fun ch =>
          { ch with pending := ch.pending ++ [request] } }⟩) := by
      unfold post
      rw [Exec.bind_ok hrun]
      rfl
    rw [Exec.bind_ok hpost] at h
    rw [hch] at h
    exact .inr ⟨c, ch, hch, (congrArg Prod.snd h).symm⟩
  · have hpost : post request out w = (.error exn, ⟨c, w.owner⟩) := by
      unfold post
      rw [Exec.bind_error hrun]
    rw [Exec.bind_error hpost] at h
    exact absurd (congrArg Prod.fst h) (by simp)

/-- A wait that returns has seen everything granted that was asked for, its own request last. -/
theorem granted_ask {request : Request} {wait : Wait} {refused : String → String}
    {timedOut : String} {count : Nat} (h : ask request wait refused timedOut w = (.ok count, w')) :
    w'.owner.asked = w.owner.asked ++ [request] ∧ w'.owner.waiting = [] := by
  obtain ⟨_, u, hreset, hrest⟩ := Exec.bind_eq_ok h
  obtain ⟨_, v, hsubmit, hrest⟩ := Exec.bind_eq_ok hrest
  obtain ⟨_, x, hwait, hread⟩ := Exec.bind_eq_ok hrest
  obtain rfl : u = ⟨w.connection, { w.owner with answer := {} }⟩ :=
    (congrArg Prod.snd hreset).symm
  rw [Exec.get_bind] at hread
  rcases submit_cases hsubmit with ⟨c, rfl⟩ | ⟨c, ch, hch, rfl⟩
  · -- the failure is there before the wait begins
    have hover : pumpUntil react isAnswered wait.turns
        ⟨c, { w.owner with answer := { failure := "Frame could not be sent" } }⟩ =
        (.ok true, ⟨c, { w.owner with answer := { failure := "Frame could not be sent" } }⟩) := by
      cases wait.turns <;> rfl
    obtain rfl := congrArg Prod.snd (hover.symm.trans hwait)
    exact absurd (congrArg Prod.fst hread) (by simp)
  · have hbegun : Awaits (w.owner.asked ++ [request]) { w.owner with
        answer := {}, channel := some { ch with pending := ch.pending ++ [request] } } := by
      refine .answer _ rfl ?_ (iff_of_false Bool.false_ne_true (by simp))
      have hbefore : w.owner.asked = ch.granted ++ ch.pending := asked_of_channel hch
      rw [hbefore, List.append_assoc]
    have hreact : ∀ event, Exec.Along (OnOwner (Exec.Keeps (Awaits (w.owner.asked ++ [request]))))
        (react event) := awaits_react
    have hkept := onOwner_pumpUntil hreact
      isAnswered wait.turns ⟨c, { w.owner with
        answer := {}, channel := some { ch with pending := ch.pending ++ [request] } }⟩ hbegun
    rw [hwait] at hkept
    split at hread
    · exact absurd (congrArg Prod.fst hread) (by simp)
    split at hread
    · exact absurd (congrArg Prod.fst hread) (by simp)
    next hdone =>
    obtain rfl : x = w' := congrArg Prod.snd hread
    cases hkept with
    | lost hlost => exact absurd hlost hdone
    | answer ch' hch' hasked hiff =>
        have hpending := hiff.mp (Bool.eq_true_of_not_eq_false hdone)
        refine ⟨(asked_of_channel hch').trans hasked, ?_⟩
        rw [waiting, hch', Option.map_some, Option.getD_some, hpending]

variable {topic : Topic} {options : TopicOptions}

theorem granted_declareGroup {wait : Wait} (h : declareGroup options wait w = (.ok (), w')) :
    w'.owner.asked = w.owner.asked ++ (if options.group = "" then [] else
      [.declareExchange options.group (amqpExchangeType options.routing) options.durable]) := by
  unfold declareGroup at h
  split at h
  · next hgroup =>
      obtain rfl : w = w' := congrArg Prod.snd h
      rw [if_pos hgroup, List.append_nil]
  · next hgroup =>
      obtain ⟨_, v, hask, hpure⟩ := Exec.bind_eq_ok h
      obtain rfl : v = w' := congrArg Prod.snd hpure
      rw [if_neg hgroup]
      exact (granted_ask hask).1

theorem granted_bindGroup {wait : Wait} (hwaiting : w.owner.waiting = [])
    (h : bindGroup topic options wait w = (.ok (), w')) :
    w'.owner.asked = w.owner.asked ++ (if options.group = "" then [] else
      [.bindQueue options.group topic (bindingKey topic options)]) ∧ w'.owner.waiting = [] := by
  unfold bindGroup at h
  split at h
  · next hgroup =>
      obtain rfl : w = w' := congrArg Prod.snd h
      rw [if_pos hgroup, List.append_nil]
      exact ⟨rfl, hwaiting⟩
  · next hgroup =>
      obtain ⟨_, v, hask, hwrite⟩ := Exec.bind_eq_ok h
      obtain rfl := congrArg Prod.snd hwrite
      obtain ⟨hasked, hwaiting⟩ := granted_ask hask
      rw [if_neg hgroup]
      exact ⟨hasked, hwaiting⟩

/-- The declaration of one destination asks for its `requests`, in their order. -/
theorem granted_declareDestination {env : DestinationEnv} {count : Nat}
    (h : declareDestination topic options env w = (.ok count, w')) :
    w'.owner.asked = w.owner.asked ++ requests topic options ∧ w'.owner.waiting = [] := by
  obtain ⟨_, u, hgroup, h⟩ := Exec.bind_eq_ok h
  obtain ⟨_, v, hqueue, h⟩ := Exec.bind_eq_ok h
  obtain ⟨_, v', hbind, hpure⟩ := Exec.bind_eq_ok h
  obtain rfl : v' = w' := congrArg Prod.snd hpure
  obtain ⟨hasked, hwaiting⟩ := granted_ask hqueue
  obtain ⟨hbound, hempty⟩ := granted_bindGroup hwaiting hbind
  refine ⟨?_, hempty⟩
  rw [hbound, hasked, granted_declareGroup hgroup, requests, List.append_assoc, List.append_assoc,
    List.append_assoc]

/-- A declaration asks for the requests of the forensic destination, if there is one, and
then for those of the topic. -/
theorem granted_declare {env : DeclareEnv} {count : Nat}
    (h : declare topic options env w = (.ok count, w')) :
    w'.owner.asked = w.owner.asked ++ ((if options.deadLetter then
        requests (deadLetterTopic topic) (forensicTopicOptions topic) else []) ++
      requests topic options) ∧ w'.owner.waiting = [] := by
  obtain ⟨_, u, hlogged, h⟩ := Exec.bind_eq_ok h
  obtain ⟨_, v, hforensic, h⟩ := Exec.bind_eq_ok h
  have hu : u.owner.asked = w.owner.asked := by
    obtain rfl := congrArg Prod.snd hlogged
    exact asked_modifyChannel w fun _ => ⟨rfl, rfl⟩
  obtain ⟨hasked, hwaiting⟩ := granted_declareDestination h
  refine ⟨?_, hwaiting⟩
  rw [hasked, ← List.append_assoc, ← hu]
  congr 1
  unfold declareForensic at hforensic
  split at hforensic
  · next hdead =>
      obtain ⟨_, v', hdeclared, hpure⟩ := Exec.bind_eq_ok hforensic
      obtain rfl : v' = v := congrArg Prod.snd hpure
      rw [if_pos hdead, (granted_declareDestination hdeclared).1]
  · next hdead =>
      obtain rfl : u = v := congrArg Prod.snd hforensic
      rw [if_neg hdead, List.append_nil]

end Declare

end Session

open Session

/-- A call of `ensureTopic` that returns leaves nothing waiting, and is granted what waited
before it and what it declares. -/
theorem AmqpCppTransport.granted_ensureTopic {topic : Topic} {options : TopicOptions}
    {env : DeclareEnv} {t t' : AmqpCppTransport}
    (h : AmqpCppTransport.ensureTopic topic options env t = (.ok (), t')) :
    t'.session.granted = t.session.asked ++ ((if options.deadLetter then
        requests (deadLetterTopic topic) (forensicTopicOptions topic) else []) ++
      requests topic options) ∧ t'.session.waiting = [] := by
  obtain ⟨_, u, hchannel, h⟩ := Exec.bind_eq_ok h
  obtain ⟨count, v, hserved, hwrite⟩ := Exec.bind_eq_ok h
  have hu := @onSession_requireChannel (Exec.Same Session.asked) _ "ensureTopic" t
  rw [hchannel] at hu
  have hsame : u.session.asked = t.session.asked := hu
  obtain ⟨c, c', -, hdeclare, -⟩ := serve_ok hserved
  obtain ⟨hasked, hwaiting⟩ := granted_declare hdeclare
  rw [modifySession_ok hwrite, ← hsame]
  exact ⟨(granted_of_waiting hwaiting).trans hasked, hwaiting⟩

end Motus.Amqp
