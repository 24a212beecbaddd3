import Motus.Amqp.Frame

set_option autoImplicit false

/-!
# The routes a transport keeps

`_routes` is a field of each transport.  Only `bindGroup` writes it, so that after a
declaration that returned it holds what the transport itself has declared.

It holds nothing of what other transports have declared, and a declaration that throws
has not written it for the topic that was refused.
-/

namespace Motus.Amqp

open Motus.Foundation Motus.Transport AmqpConnection

namespace Session

/-- The key a queue is bound with. -/
def bindingKey (topic : Topic) (options : TopicOptions) : String :=
  if options.route = "" then topic else options.route

/-- What a declaration of one destination notes in the routes. -/
def noted (topic : Topic) (options : TopicOptions) (routes : Topic → Option RouteBinding) :
    Topic → Option RouteBinding :=
  if options.group = "" then routes
  else fun t => if t = topic then some ⟨options.group, bindingKey topic options⟩ else routes t

theorem keptByAsk_routes : KeptByAsk (Exec.Same Session.routes) where
  answer := fun _ _ => rfl
  channel := fun _ _ _ _ _ => rfl
  received := fun _ _ _ _ _ _ hhandled => by rcases hhandled with _ | ⟨_ | _ | _ | _⟩ <;> rfl

theorem routes_ask {request : Request} {wait : Wait} {refused : String → String}
    {timedOut : String} {w w' : Wire Session} {result : Except Exn Nat}
    (h : ask request wait refused timedOut w = (result, w')) :
    w'.owner.routes = w.owner.routes := by
  have hkept := keptByAsk_routes.ask request wait refused timedOut w
  rw [h] at hkept
  exact hkept

section Routes

variable {topic : Topic} {options : TopicOptions} {w w' : Wire Session}

theorem routes_declareGroup {wait : Wait} (h : declareGroup options wait w = (.ok (), w')) :
    w'.owner.routes = w.owner.routes := by
  unfold declareGroup at h
  split at h
  · obtain rfl : w = w' := congrArg Prod.snd h
    rfl
  · obtain ⟨_, v, hask, hpure⟩ := Exec.bind_eq_ok h
    obtain rfl : v = w' := congrArg Prod.snd hpure
    exact routes_ask hask

theorem routes_bindGroup {wait : Wait} (h : bindGroup topic options wait w = (.ok (), w')) :
    w'.owner.routes = noted topic options w.owner.routes := by
  unfold bindGroup at h
  unfold noted
  split at h
  · next hgroup =>
      obtain rfl : w = w' := congrArg Prod.snd h
      rw [if_pos hgroup]
  · next hgroup =>
      obtain ⟨_, v, hask, hwrite⟩ := Exec.bind_eq_ok h
      obtain rfl := congrArg Prod.snd hwrite
      rw [if_neg hgroup, ← routes_ask hask]
      rfl

theorem routes_declareDestination {env : DestinationEnv} {count : Nat}
    (h : declareDestination topic options env w = (.ok count, w')) :
    w'.owner.routes = noted topic options w.owner.routes := by
  obtain ⟨_, u, hgroup, h⟩ := Exec.bind_eq_ok h
  obtain ⟨_, v, hask, h⟩ := Exec.bind_eq_ok h
  obtain ⟨_, v', hbind, hpure⟩ := Exec.bind_eq_ok h
  obtain rfl : v' = w' := congrArg Prod.snd hpure
  exact (routes_bindGroup hbind).trans (by rw [routes_ask hask, routes_declareGroup hgroup])

/-- A declaration notes the forensic destination first, if there is one. -/
theorem routes_declare {env : DeclareEnv} {count : Nat}
    (h : declare topic options env w = (.ok count, w')) :
    w'.owner.routes = noted topic options
      (if options.deadLetter then
        noted (deadLetterTopic topic) (forensicTopicOptions topic) w.owner.routes
      else w.owner.routes) := by
  obtain ⟨_, u, hlogged, h⟩ := Exec.bind_eq_ok h
  obtain ⟨_, v, hforensic, h⟩ := Exec.bind_eq_ok h
  have hu : u.owner.routes = w.owner.routes := by
    obtain rfl := congrArg Prod.snd hlogged
    rfl
  rw [routes_declareDestination h, ← hu]
  congr 1
  unfold declareForensic at hforensic
  split at hforensic
  · next hdead =>
      obtain ⟨_, v', hdeclared, hpure⟩ := Exec.bind_eq_ok hforensic
      obtain rfl : v' = v := congrArg Prod.snd hpure
      rw [if_pos hdead, routes_declareDestination hdeclared]
  · next hdead =>
      obtain rfl : u = v := congrArg Prod.snd hforensic
      rw [if_neg hdead]

end Routes

end Session

open Session

theorem AmqpCppTransport.routes_ensureTopic {topic : Topic} {options : TopicOptions}
    {env : DeclareEnv} {t t' : AmqpCppTransport}
    (h : AmqpCppTransport.ensureTopic topic options env t = (.ok (), t')) :
    t'.session.routes = noted topic options
      (if options.deadLetter then
        noted (deadLetterTopic topic) (forensicTopicOptions topic) t.session.routes
      else t.session.routes) := by
  obtain ⟨_, u, hchannel, h⟩ := Exec.bind_eq_ok h
  obtain ⟨count, v, hserved, hwrite⟩ := Exec.bind_eq_ok h
  have hu := @onSession_requireChannel (Exec.Same Session.routes) _ "ensureTopic" t
  rw [hchannel] at hu
  have hsame : u.session.routes = t.session.routes := hu
  obtain ⟨c, c', -, hdeclare, -⟩ := serve_ok hserved
  rw [modifySession_ok hwrite, ← hsame]
  exact routes_declare hdeclare

end Motus.Amqp
