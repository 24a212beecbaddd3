import Motus.Amqp.Remembered
import Motus.Amqp.Backoff

set_option autoImplicit false

/-!
# What becomes of an exception the handler throws

A throw of the handler resolves nothing and is stashed; `pump` throws it again once
the socket has been served.  There is one place for it, and a `pump` that finds the
connection closed goes to the reconnection before it looks there: a stashed
failure can be replaced by another, and a `pump` can return with one stashed.
-/

namespace Motus.Amqp

open Motus.Foundation Motus.Transport AmqpConnection

/-! ## The record of the throws -/

/-- What a session records of the throws of its handler. -/
structure Failures where
  generation : Nat
  /-- the number of the last delivery on the channel -/
  lastTag : Option Nat
  abandoned : Nat
  abandonments : List Abandonment
  resolutions : List Resolution
  stashed : Option String
  rethrown : List String

namespace Failures

/-- The place is not later than the last delivery. -/
def Reached (f : Failures) (place : Place) : Prop :=
  place.generation ≤ f.generation ∧
    ∀ tag ∈ f.lastTag, place.generation = f.generation → place.tag ≤ tag

/-- No throw is on record for the number on the current channel. -/
def Unabandoned (f : Failures) (tag : Nat) : Prop :=
  ∀ a ∈ f.abandonments, a.place ≠ ⟨f.generation, tag⟩

/-- A throw, while the failure `stashed` is still there. -/
def threw (tag : Nat) (what : String) (f : Failures) : Failures :=
  { f with
    abandoned := f.abandoned + 1
    abandonments := ⟨⟨f.generation, tag⟩, what, f.stashed⟩ :: f.abandonments
    stashed := some what }

/-- A final disposition is begun for a delivery. -/
def begun (tag : Nat) (disposition : Disposition) (sendable : Bool) (f : Failures) : Failures :=
  { f with resolutions := ⟨⟨f.generation, tag⟩, disposition, sendable⟩ :: f.resolutions }

/-- Every throw is counted, resolves nothing and has a place of its own; and what was
neither stashed nor thrown again was replaced. -/
structure Minded (f : Failures) : Prop where
  counted : f.abandoned = f.abandonments.length
  resolved : ∀ r ∈ f.resolutions, f.Reached r.place
  reached : ∀ a ∈ f.abandonments, f.Reached a.place
  unresolved : ∀ a ∈ f.abandonments, ∀ r ∈ f.resolutions, r.place ≠ a.place
  balanced : f.abandonments.length = f.stashed.toList.length + f.rethrown.length +
    f.abandonments.countP (·.stashed.isSome)
  reported : (∀ a ∈ f.abandonments, a.stashed = none) →
    f.abandonments.map Abandonment.what = f.stashed.toList ++ f.rethrown

variable {f : Failures} {tag : Nat}

theorem Minded.init : Minded ⟨0, none, 0, [], [], none, []⟩ where
  counted := rfl
  resolved := fun _ h => absurd h List.not_mem_nil
  reached := fun _ h => absurd h List.not_mem_nil
  unresolved := fun _ h => absurd h List.not_mem_nil
  balanced := rfl
  reported := fun _ => rfl

theorem Reached.numbered {place : Place} (h : f.Reached place) {last : Nat}
    (hlast : f.lastTag = some last) (hsame : place.generation = f.generation) :
    place.tag ≤ last := h.2 last hlast hsame

/-- A delivery arrives: its number has not been used. -/
theorem Minded.arrived (h : f.Minded) {last : Nat} (hlast : f.lastTag = some last) :
    Minded { f with lastTag := some (last + 1) } := by
  have hreached : ∀ place, f.Reached place →
      Reached { f with lastTag := some (last + 1) } place := by
    rintro place hplace
    refine ⟨hplace.1, fun tag htag hsame => ?_⟩
    obtain rfl := Option.some.inj htag
    exact (hplace.numbered hlast hsame).trans (Nat.le_succ last)
  exact { h with
    resolved := fun r hr => hreached _ (h.resolved r hr)
    reached := fun a ha => hreached _ (h.reached a ha) }

/-- The number after the last one is on no record. -/
theorem Minded.fresh (h : f.Minded) {last : Nat} (hlast : f.lastTag = some last) :
    f.Unabandoned (last + 1) ∧ ∀ r ∈ f.resolutions, r.place ≠ ⟨f.generation, last + 1⟩ := by
  have hnot : ∀ place, f.Reached place → place ≠ ⟨f.generation, last + 1⟩ := by
    rintro place hplace rfl
    exact absurd (hplace.numbered hlast rfl) (Nat.not_succ_le_self last)
  exact ⟨fun a ha => hnot _ (h.reached a ha), fun r hr => hnot _ (h.resolved r hr)⟩

theorem Minded.threw (h : f.Minded) (hreached : f.Reached ⟨f.generation, tag⟩)
    (hfresh : ∀ r ∈ f.resolutions, r.place ≠ ⟨f.generation, tag⟩) (what : String) :
    Minded (f.threw tag what) where
  counted := congrArg (· + 1) h.counted
  resolved := h.resolved
  reached := by
    intro a ha
    rcases List.mem_cons.mp ha with rfl | ha
    · exact hreached
    · exact h.reached a ha
  unresolved := by
    intro a ha r hr
    rcases List.mem_cons.mp ha with rfl | ha
    · exact hfresh r hr
    · exact h.unresolved a ha r hr
  balanced := by
    have hbalanced := h.balanced
    unfold Failures.threw
    dsimp only
    rw [List.length_cons, List.countP_cons]
    cases hstashed : f.stashed with
    | none =>
        rw [hstashed, Option.toList_none, List.length_nil] at hbalanced
        rw [Option.toList_some, List.length_singleton, Option.isSome_none, if_neg Bool.false_ne_true]
        omega
    | some first =>
        rw [hstashed, Option.toList_some, List.length_singleton] at hbalanced
        rw [Option.toList_some, List.length_singleton, Option.isSome_some, if_pos rfl]
        omega
  reported := by
    intro hstash
    have hnone : f.stashed = none := hstash _ List.mem_cons_self
    have hreported := h.reported fun a ha => hstash a (List.mem_cons_of_mem _ ha)
    unfold Failures.threw
    rw [List.map_cons, hreported, hnone]
    rfl

theorem Minded.begun (h : f.Minded) (hreached : f.Reached ⟨f.generation, tag⟩)
    (hunabandoned : f.Unabandoned tag) (disposition : Disposition) (sendable : Bool) :
    Minded (f.begun tag disposition sendable) :=
  { h with
    resolved := by
      intro r hr
      rcases List.mem_cons.mp hr with rfl | hr
      · exact hreached
      · exact h.resolved r hr
    unresolved := by
      intro a ha r hr
      rcases List.mem_cons.mp hr with rfl | hr
      · exact (hunabandoned a ha).symm
      · exact h.unresolved a ha r hr }

/-- On a new channel the numbers start again. -/
theorem Minded.opened (h : f.Minded) :
    Minded { f with generation := f.generation + 1, lastTag := some 0 } := by
  have hreached : ∀ place, f.Reached place →
      Reached { f with generation := f.generation + 1, lastTag := some 0 } place := by
    intro place hplace
    refine ⟨hplace.1.trans (Nat.le_succ _), fun _ _ hsame => ?_⟩
    have hlater : place.generation = f.generation + 1 := hsame
    exact absurd hplace.1 (by omega)
  exact { h with
    resolved := fun r hr => hreached _ (h.resolved r hr)
    reached := fun a ha => hreached _ (h.reached a ha) }

theorem Minded.dropped (h : f.Minded) : Minded { f with lastTag := none } := by
  have hreached : ∀ place, f.Reached place → Reached { f with lastTag := none } place :=
    fun place hplace => ⟨hplace.1, fun _ h => absurd h (by simp)⟩
  exact { h with
    resolved := fun r hr => hreached _ (h.resolved r hr)
    reached := fun a ha => hreached _ (h.reached a ha) }

theorem Minded.rethrown (h : f.Minded) {what : String} (hstashed : f.stashed = some what) :
    Minded { f with stashed := none, rethrown := what :: f.rethrown } :=
  { h with
    balanced := by
      have hbalanced := h.balanced
      rw [hstashed] at hbalanced
      simp only [Option.toList, List.length_cons, List.length_nil] at hbalanced ⊢
      omega
    reported := by
      intro hstash
      rw [h.reported hstash, hstashed]
      rfl }

/-- Nothing was replaced exactly when every throw found nothing stashed. -/
theorem Minded.reported_iff (h : f.Minded) :
    f.abandonments.map Abandonment.what = f.stashed.toList ++ f.rethrown ↔
      ∀ a ∈ f.abandonments, a.stashed = none := by
  refine ⟨fun hreported => ?_, h.reported⟩
  have hlength := congrArg List.length hreported
  rw [List.length_map, List.length_append] at hlength
  have hbalanced := h.balanced
  have hnone : f.abandonments.countP (·.stashed.isSome) = 0 := by omega
  intro a ha
  have hnot := List.countP_eq_zero.mp hnone a ha
  exact Option.not_isSome_iff_eq_none.mp hnot

end Failures

namespace Session

/-- The record of the session. -/
def failures (s : Session) : Failures where
  generation := s.generation
  lastTag := s.channel.map Channel.lastTag
  abandoned := s.stats.abandoned
  abandonments := s.abandonments
  resolutions := s.resolutions
  stashed := s.handlerFailure
  rethrown := s.rethrown

/-- Every throw is counted once and resolves nothing, and none has been replaced: each
has been thrown again, in their order, but for one that is stashed. -/
structure Honoured (s : Session) : Prop where
  counted : s.stats.abandoned = s.abandonments.length
  unresolved : ∀ a ∈ s.abandonments, ∀ r ∈ s.resolutions, r.place ≠ a.place
  reported : s.abandonments.map Abandonment.what = s.handlerFailure.toList ++ s.rethrown

theorem honoured_iff {s : Session} (h : s.failures.Minded) :
    s.Honoured ↔ ∀ a ∈ s.abandonments, a.stashed = none :=
  ⟨fun honoured => h.reported_iff.mp honoured.reported,
    fun hstash => ⟨h.counted, h.unresolved, h.reported_iff.mpr hstash⟩⟩

/-- The session's record is minded. -/
def Mindful (s : Session) : Prop := s.failures.Minded

theorem Mindful.performed {s s' : Session} {tag : Nat} (h : s.Mindful)
    (hreached : s.failures.Reached ⟨s.generation, tag⟩) (hown : s.failures.Unabandoned tag)
    (hperformed : Performed tag s s') : s'.Mindful := by
  cases hperformed with
  | deferred => exact h
  | accepted disposition hfinal => exact Failures.Minded.begun h hreached hown disposition true
  | refused disposition hfinal => exact Failures.Minded.begun h hreached hown disposition false
  | failed disposition hfinal => exact Failures.Minded.begun h hreached hown disposition true

theorem Mindful.received {s s' : Session} {ch : Channel} {body : Bytes} {redelivered : Bool}
    (h : s.Mindful) (hchannel : s.channel = some ch)
    (hhandled : Handled (ch.lastTag + 1) (arrived ch body redelivered s) s') : s'.Mindful := by
  have hlast : s.failures.lastTag = some ch.lastTag := by
    unfold failures
    rw [hchannel, Option.map_some]
  obtain ⟨hunabandoned, hunresolved⟩ := Failures.Minded.fresh h hlast
  have harrived : (arrived ch body redelivered s).Mindful := Failures.Minded.arrived h hlast
  have hreached : (arrived ch body redelivered s).failures.Reached ⟨s.generation, ch.lastTag + 1⟩ := by
    refine ⟨le_refl _, fun tag htag _ => ?_⟩
    exact (Option.some.inj htag).le
  cases hhandled with
  | threw what => exact Failures.Minded.threw harrived hreached hunresolved what
  | returned hperformed => exact harrived.performed hreached hunabandoned hperformed

theorem failures_channel {s : Session} {ch ch' : Channel} (hchannel : s.channel = some ch)
    (hlast : ch'.lastTag = ch.lastTag) :
    failures { s with channel := some ch' } = s.failures := by
  unfold failures
  dsimp only
  rw [hchannel, Option.map_some, Option.map_some, hlast]

theorem keptByPump_mindful : KeptByPump (Exec.Keeps Mindful) where
  answer := fun _ _ => id
  routes := fun _ _ => id
  channel := fun _ _ _ hchannel hsame h =>
    (congrArg Failures.Minded (failures_channel hchannel hsame.lastTag)).mpr h
  received := fun _ _ _ _ _ hchannel hhandled h => h.received hchannel hhandled
  declared := fun _ _ _ hchannel h =>
    (congrArg Failures.Minded (failures_channel hchannel rfl)).mpr h
  consumed := fun _ _ _ hchannel h =>
    (congrArg Failures.Minded (failures_channel hchannel rfl)).mpr h
  opened := fun _ _ h => Failures.Minded.opened h
  dropped := fun _ h => Failures.Minded.dropped h
  forgotten := fun _ => id
  endpoint := fun _ _ => id
  backoff := fun _ _ _ _ => id
  reconnected := fun _ => id
  rethrown := fun _ _ hstashed h => Failures.Minded.rethrown h hstashed
  policy := fun _ _ => id

/-- Throws are noted, and the last of them is stashed. -/
def Stashes (s s' : Session) : Prop :=
  ∃ more, s'.abandonments = more ++ s.abandonments ∧
    s'.handlerFailure = (more.head?.map Abandonment.what).or s.handlerFailure

instance : IsPreorder Session Stashes where
  refl _ := ⟨[], rfl, rfl⟩
  trans := by
    rintro s t u ⟨first, hfirst, hstash⟩ ⟨second, hsecond, hstash'⟩
    refine ⟨second ++ first, ?_, ?_⟩
    · rw [hsecond, hfirst, List.append_assoc]
    · rw [hstash', hstash, List.head?_append, Option.map_or, Option.or_assoc]

theorem Stashes.received {s s' : Session} {ch : Channel} {body : Bytes} {redelivered : Bool}
    {tag : Nat} (hhandled : Handled tag (arrived ch body redelivered s) s') : Stashes s s' := by
  rcases hhandled with what | ⟨_ | _ | _ | _⟩
  · exact ⟨[⟨⟨s.generation, tag⟩, what, s.handlerFailure⟩], rfl, rfl⟩
  all_goals exact ⟨[], rfl, rfl⟩

theorem keptByReconnect_stashes : KeptByReconnect Stashes where
  answer := fun _ _ => ⟨[], rfl, rfl⟩
  routes := fun _ _ => ⟨[], rfl, rfl⟩
  channel := fun _ _ _ _ _ => ⟨[], rfl, rfl⟩
  received := fun _ _ _ _ _ _ hhandled => Stashes.received hhandled
  declared := fun _ _ _ _ => ⟨[], rfl, rfl⟩
  consumed := fun _ _ _ _ => ⟨[], rfl, rfl⟩
  opened := fun _ _ => ⟨[], rfl, rfl⟩
  dropped := fun _ => ⟨[], rfl, rfl⟩
  forgotten := fun _ => ⟨[], rfl, rfl⟩
  endpoint := fun _ _ => ⟨[], rfl, rfl⟩
  backoff := fun _ _ _ _ => ⟨[], rfl, rfl⟩
  reconnected := fun _ => ⟨[], rfl, rfl⟩

/-- Nothing is stashed afterwards exactly when nothing was and nothing was thrown. -/
theorem Stashes.none_iff {s s' : Session} (h : Stashes s s') :
    s'.handlerFailure = none ↔
      s.handlerFailure = none ∧ s'.abandonments = s.abandonments := by
  obtain ⟨more, hmore, hstash⟩ := h
  rw [hstash, hmore, Option.or_eq_none_iff, Option.map_eq_none_iff, List.head?_eq_none_iff,
    List.append_left_eq_self]
  exact and_comm

end Session

namespace AmqpCppTransport

open Session

/-! ## What `pump` does with a stashed failure -/

theorem pump_of_reconnects {env : PumpEnv} {t t' : AmqpCppTransport}
    (h : reconnects env t = some t') :
    pump env t = serviceReconnect env.reconnect t' := by
  rw [pump_apply]
  unfold reconnects at h
  by_cases hdown : t.connection.all isClosed = true
  · rw [if_pos hdown] at h ⊢
    rw [Option.some.inj h]
  rw [if_neg hdown] at h ⊢
  rcases hrun : serve (pumpUntil react (fun _ => false) env.turns) t with ⟨r, v⟩
  rw [hrun] at h
  cases r with
  | error exn => exact absurd h (by simp)
  | ok _ =>
      dsimp only at h ⊢
      split at h
      · next hserved =>
          obtain rfl := Option.some.inj h
          obtain ⟨hnone, hclosed⟩ := hserved
          rw [pumpServed_apply, Option.isNone_iff_eq_none.mp hnone]
          dsimp only
          rw [if_pos hclosed]
      · exact absurd h (by simp)

/-- A `pump` that returns without a reconnection has looked for a failure and found none. -/
theorem pump_of_not_reconnects {env : PumpEnv} {t : AmqpCppTransport}
    (h : reconnects env t = none) (hok : (pump env t).1.isOk = true) :
    (pump env t).2.session.handlerFailure = none := by
  rw [pump_apply] at hok ⊢
  unfold reconnects at h
  by_cases hdown : t.connection.all isClosed = true
  · rw [if_pos hdown] at h
    exact absurd h (by simp)
  rw [if_neg hdown] at h hok ⊢
  rcases hrun : serve (pumpUntil react (fun _ => false) env.turns) t with ⟨r, v⟩
  rw [hrun] at h hok
  cases r with
  | error exn => exact absurd hok (by simp [Except.isOk, Except.toBool])
  | ok _ =>
      dsimp only at h hok ⊢
      rw [pumpServed_apply]
      cases hstash : v.session.handlerFailure with
      | some what => rfl
      | none =>
          rw [hstash] at h
          dsimp only at h ⊢
          split at h
          · exact absurd h (by simp)
          · next hserved =>
              rw [if_neg fun hclosed => hserved ⟨rfl, hclosed⟩]
              exact hstash

/-- When a `pump` returns from the reconnection, no failure was stashed as it got there
and none was thrown in the attempt. -/
def Reports (env : PumpEnv) (t : AmqpCppTransport) : Prop :=
  ∀ t' ∈ reconnects env t, (serviceReconnect env.reconnect t').1.isOk = true →
    t'.session.handlerFailure = none ∧
    (serviceReconnect env.reconnect t').2.session.abandonments = t'.session.abandonments

instance (env : PumpEnv) (t : AmqpCppTransport) : Decidable (Reports env t) :=
  inferInstanceAs (Decidable (∀ t' ∈ reconnects env t, _ = true → _ = none ∧ _ = _))

/-- A `pump` that returns has no failure stashed. -/
def Tells (env : PumpEnv) (t : AmqpCppTransport) : Prop :=
  (pump env t).1.isOk = true → (pump env t).2.session.handlerFailure = none

instance (env : PumpEnv) (t : AmqpCppTransport) : Decidable (Tells env t) :=
  inferInstanceAs (Decidable (_ = true → _ = none))

theorem tells_iff_reports (env : PumpEnv) (t : AmqpCppTransport) :
    Tells env t ↔ Reports env t := by
  unfold Tells Reports
  cases hreconnects : reconnects env t with
  | none =>
      refine ⟨fun _ t' ht' => absurd ht' (by simp), fun _ hok => ?_⟩
      exact pump_of_not_reconnects hreconnects hok
  | some t' =>
      have hpump := pump_of_reconnects hreconnects
      have hstashes : Stashes t'.session (serviceReconnect env.reconnect t').2.session :=
        KeptByReconnect.serviceReconnect keptByReconnect_stashes env.reconnect t'
      rw [hpump]
      constructor
      · intro htells v hv hok
        obtain rfl := Option.some.inj hv
        exact hstashes.none_iff.mp (htells hok)
      · exact fun hreports hok => hstashes.none_iff.mpr (hreports t' rfl hok)

/-! ## A call -/

/-- The `pump` a call is. -/
def Call.pumps : Call → Option PumpEnv
  | .pump env => some env
  | _ => none

/-- The tag a call settles. -/
def Call.settles : Call → Option Nat
  | .settle tag _ _ => some tag
  | _ => none

/-- The tag is of a delivery of the current channel, and not of one that the handler
threw on. -/
def Owns (t : AmqpCppTransport) (tag : Nat) : Prop :=
  (∀ ch ∈ t.session.channel, tag ≤ ch.lastTag) ∧
    ∀ a ∈ t.session.abandonments, a.place ≠ ⟨t.session.generation, tag⟩

instance (t : AmqpCppTransport) (tag : Nat) : Decidable (t.Owns tag) :=
  inferInstanceAs (Decidable ((∀ ch ∈ t.session.channel, tag ≤ ch.lastTag) ∧ _))

theorem Owns.reached {t : AmqpCppTransport} {tag : Nat} (h : t.Owns tag) :
    t.session.failures.Reached ⟨t.session.generation, tag⟩ := by
  refine ⟨le_refl _, fun last hlast _ => ?_⟩
  obtain ⟨ch, hchannel, rfl⟩ := Option.map_eq_some_iff.mp hlast
  exact h.1 ch hchannel

theorem mindful_settle {t : AmqpCppTransport} {tag : Nat} (h : t.session.Mindful)
    (howns : tag ∈ t.session.outstandingDeferred → t.Owns tag) (disposition : Disposition)
    (out : Outbound) : (settle tag disposition out t).2.session.Mindful := by
  rcases settle_cases tag disposition out t with hsame | ⟨htag, settled, s₁, rfl, hrest⟩
  · rw [hsame]
    exact h
  have hown := howns htag
  rcases hrest with hsame | hperformed
  · rw [hsame]
    exact h
  · have hresolved : Mindful { t.session with
        outstandingDeferred := t.session.outstandingDeferred.erase tag, settled := settled } := h
    exact hresolved.performed hown.reached hown.2 hperformed

theorem mindful_call {t : AmqpCppTransport} {call : Call} (h : t.session.Mindful)
    (howns : ∀ tag ∈ call.settles, tag ∈ t.session.outstandingDeferred → t.Owns tag) :
    (call.method t).2.session.Mindful := by
  by_cases hsettle : ∃ tag disposition out, call = .settle tag disposition out
  · obtain ⟨tag, disposition, out, rfl⟩ := hsettle
    exact mindful_settle h (howns tag rfl) disposition out
  · exact KeptByPump.call keptByPump_mindful call
      (fun topic payload options out _ => onSession_send (fun _ _ => id) topic payload options out)
      (fun _ _ _ _ _ => id)
      (fun _ _ _ _ _ => ⟨id, id⟩) (fun _ _ _ => id)
      (fun tag disposition out heq => absurd ⟨tag, disposition, out, heq⟩ hsettle) t h

end AmqpCppTransport

namespace Process

open AmqpCppTransport Session

/-- What is settled was deferred on the current channel, or nothing is. -/
def Settles (p : Process) (call : Call) : Prop :=
  p.running = true → ∀ tag ∈ call.settles,
    tag ∈ p.transport.session.outstandingDeferred → p.transport.Owns tag

instance (p : Process) (call : Call) : Decidable (p.Settles call) :=
  inferInstanceAs (Decidable (_ = true → ∀ tag ∈ call.settles, _ → p.transport.Owns tag))

/-- A `pump` that returns has no failure stashed. -/
def Told (p : Process) (call : Call) : Prop :=
  p.running = true → ∀ env ∈ call.pumps, Tells env p.transport

instance (p : Process) (call : Call) : Decidable (p.Told call) :=
  inferInstanceAs (Decidable (_ = true → ∀ env ∈ call.pumps, Tells env p.transport))

/-- Whenever the handler throws in the call, nothing is stashed, and a `pump` that returns
from a reconnection neither came there with a failure nor met one in the attempt. -/
def Reportable (p : Process) (call : Call) : Prop :=
  p.running = true →
    (∀ a ∈ (call.method p.transport).2.session.abandonments, a.stashed = none) ∧
    ∀ env ∈ call.pumps, Reports env p.transport

instance (p : Process) (call : Call) : Decidable (p.Reportable call) :=
  inferInstanceAs (Decidable (_ = true →
    (∀ a ∈ (call.method p.transport).2.session.abandonments, a.stashed = none) ∧ _))

theorem mindful_step {p : Process} {call : Call} (h : p.transport.session.Mindful)
    (hsettles : p.Settles call) : (machine.step p call).transport.session.Mindful := by
  unfold machine step
  dsimp only
  split
  · next hrunning => exact mindful_call h (hsettles hrunning)
  · exact h

theorem honoured_step_iff {p : Process} {call : Call} (h : p.transport.session.Mindful)
    (hsettles : p.Settles call) (hhonoured : p.transport.session.Honoured) :
    (machine.step p call).transport.session.Honoured ∧ p.Told call ↔ p.Reportable call := by
  have hnext := mindful_step h hsettles
  unfold Told Reportable
  by_cases hrunning : p.running = true
  · have hsession : (machine.step p call).transport.session =
        (call.method p.transport).2.session := by
      unfold machine step
      dsimp only
      rw [if_pos hrunning]
    rw [honoured_iff hnext, hsession]
    constructor
    · rintro ⟨hstash, htold⟩ _
      exact ⟨hstash, fun env henv => (tells_iff_reports env _).mp (htold hrunning env henv)⟩
    · intro hreportable
      obtain ⟨hstash, hreports⟩ := hreportable hrunning
      exact ⟨hstash, fun _ env henv => (tells_iff_reports env _).mpr (hreports env henv)⟩
  · have hsame : machine.step p call = p := by
      unfold machine step
      dsimp only
      rw [if_neg hrunning]
    rw [hsame]
    exact ⟨fun _ hruns => absurd hruns hrunning, fun _ =>
      ⟨hhonoured, fun hruns => absurd hruns hrunning⟩⟩

/-- A read that brings a delivery the handler throws on. -/
def throws (what : String) : List (Turn ChannelEvent) :=
  confirmed [.channel (.received [1] false (.threw what) {})]

/-- One delivery is deferred and settled; the handler throws on the next one, while the
depth of its topic is asked for.  The next `pump` throws that again, and the one after it
returns. -/
def reportedRun : List Call :=
  plainRun ++
    [.pump { turns := confirmed [.channel (.received [1] false (.returned .deferred) {})] },
      .settle 1 .ack {},
      .topicDepth "jobs" { turns := throws "out of memory" ++ confirmed [.channel (.answered 0)] },
      .pump {}, .pump {}]

/-- A read that finds the connection at its end. -/
def lost : List (Turn ChannelEvent) := [.completed (.failed ⟨.eof, "End of file"⟩) {}]

/-- The connection is lost in the call in which the handler throws. -/
def silentRun : List Call :=
  plainRun ++
    [.topicDepth "jobs" { turns := throws "out of memory" ++ lost }, .pump {}]

end Process

end Motus.Amqp
