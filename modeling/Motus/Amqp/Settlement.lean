import Motus.Amqp.HandlerFailures
import Motus.Amqp.Shutdown
import Motus.Amqp.Teardown
import Motus.Foundation.Ledger

set_option autoImplicit false

/-!
# What becomes of a delivery

A delivery that the handler was given is acked, rejected or requeued once, or the handler
threw on it, or it is deferred and waits to be settled, or it was let go together with
its channel.  Numbers start again on every channel, and `_outstandingDeferred` holds
numbers only; what keeps an old number from settling a new delivery is that the set is
empty whenever a channel is opened.  A second `connect` on a transport that still has a
channel is the one way around that.
-/

namespace Motus.Amqp

open Motus.Foundation Motus.Transport AmqpConnection

/-- The place of the next delivery on the channel. -/
def Channel.nextPlace (ch : Channel) : Place := ⟨ch.generation, ch.lastTag + 1⟩

namespace Session

/-! ## The books of a session -/

/-- The deliveries of a session, by their places. -/
def ledger (s : Session) : Ledger Place where
  issued := (s.handed.map Prod.fst : List Place)
  held := s.outstandingDeferred.image (Place.mk s.generation)
  concluded := (s.resolutions.map Resolution.place ++ s.abandonments.map Abandonment.place :
    List Place)

/-- The books are sound, and no delivery has a number that is still to come. -/
structure Booked (s : Session) : Prop where
  sound : s.ledger.Sound
  reached : ∀ place ∈ s.ledger.issued, s.failures.Reached place
  current : ∀ ch, s.channel = some ch → ch.generation = s.generation

/-- No delivery of the current channel has been let go. -/
def Complete (s : Session) : Prop :=
  s.channel.isSome = true → ∀ place, place.generation = s.generation → ¬ s.ledger.Lapsed place

/-- Nothing is deferred without a channel. -/
def Cleared (s : Session) : Prop := s.channel = none → s.outstandingDeferred = ∅

/-- No delivery of the current channel has been let go, and none of an earlier one is
still deferred. -/
def Whole (s : Session) : Prop := s.Complete ∧ s.Cleared

/-- The books are moved on, and stay whole. -/
def Carries (s s' : Session) : Prop :=
  s.Booked → s'.Booked ∧ s.ledger.Advances s'.ledger ∧ (s.Whole → s'.Whole)

instance : IsPreorder Session Carries where
  refl s := fun h => ⟨h, Std.Refl.refl s.ledger, id⟩
  trans s t u := by
    intro hst htu hs
    obtain ⟨ht, hadvances, hwhole⟩ := hst hs
    obtain ⟨hu, hadvances', hwhole'⟩ := htu ht
    exact ⟨hu, IsTrans.trans _ _ _ hadvances hadvances', hwhole' ∘ hwhole⟩

/-- A write that leaves the books and the channel alone. -/
theorem carries_of_same {s s' : Session} (hledger : s'.ledger = s.ledger)
    (hgeneration : s'.generation = s.generation) (hchannel : s'.channel = s.channel)
    (houtstanding : s'.outstandingDeferred = s.outstandingDeferred) : Carries s s' := by
  intro h
  refine ⟨⟨?_, fun place hmem => ?_, ?_⟩, ?_, fun hwhole => ⟨?_, ?_⟩⟩
  · rw [hledger]
    exact h.sound
  · rw [hledger] at hmem
    unfold failures Failures.Reached
    dsimp only
    rw [hgeneration, hchannel]
    exact h.reached place hmem
  · rw [hchannel, hgeneration]
    exact h.current
  · rw [hledger]
    exact Std.Refl.refl s.ledger
  · unfold Complete
    rw [hchannel, hgeneration, hledger]
    exact hwhole.1
  · unfold Cleared
    rw [hchannel, houtstanding]
    exact hwhole.2

/-- The channel changes and keeps its number and that of its last delivery. -/
theorem carries_channel {s : Session} {ch ch' : Channel} (hchannel : s.channel = some ch)
    (hgeneration : ch'.generation = ch.generation) (hlast : ch'.lastTag = ch.lastTag) :
    Carries s { s with channel := some ch' } := by
  intro h
  refine ⟨⟨h.sound, ?_, fun ch₁ hch₁ => ?_⟩, Std.Refl.refl s.ledger, fun hwhole => ⟨?_, ?_⟩⟩
  · rw [failures_channel hchannel hlast]
    exact h.reached
  · obtain rfl := Option.some.inj hch₁
    exact hgeneration.trans (h.current ch hchannel)
  · exact fun _ => hwhole.1 (Option.isSome_of_eq_some hchannel)
  · exact fun hnone => absurd hnone (by simp)

/-! ### A delivery -/

theorem lastTag_failures {s : Session} {ch : Channel} (hchannel : s.channel = some ch) :
    s.failures.lastTag = some ch.lastTag := by
  unfold failures
  rw [hchannel, Option.map_some]

theorem Booked.fresh {s : Session} (h : s.Booked) {ch : Channel} (hchannel : s.channel = some ch) :
    ch.nextPlace ∉ s.ledger.issued := by
  intro hissued
  have hle := (h.reached _ hissued).numbered (lastTag_failures hchannel) (h.current ch hchannel)
  exact absurd hle (Nat.not_succ_le_self ch.lastTag)

/-- What a handler makes of a delivery leaves its channel, and either defers it or
concludes it. -/
theorem Handled.books {tag : Nat} {s s' : Session} (h : Handled tag s s') :
    s'.channel = s.channel ∧ s'.generation = s.generation ∧
      (s'.ledger = { s.ledger with held := insert ⟨s.generation, tag⟩ s.ledger.held } ∨
        s'.ledger = { s.ledger with concluded := ⟨s.generation, tag⟩ ::ₘ s.ledger.concluded }) := by
  cases h with
  | threw what =>
      refine ⟨rfl, rfl, .inr ?_⟩
      unfold ledger
      rw [Multiset.cons_coe, List.map_cons]
      congr 1
      exact Multiset.coe_eq_coe.mpr List.perm_middle
  | returned hperformed =>
      cases hperformed with
      | deferred =>
          refine ⟨rfl, rfl, .inl ?_⟩
          unfold ledger
          rw [Finset.image_insert]
      | accepted disposition hfinal => exact ⟨rfl, rfl, .inr rfl⟩
      | refused disposition hfinal => exact ⟨rfl, rfl, .inr rfl⟩
      | failed disposition hfinal => exact ⟨rfl, rfl, .inr rfl⟩

/-- What a delivery leaves of the channel and the books. -/
structure Received (ch : Channel) (s s' : Session) : Prop where
  channel : s'.channel = some { ch with lastTag := ch.lastTag + 1 }
  generation : s'.generation = s.generation
  taken : Ledger.Taken ch.nextPlace s.ledger s'.ledger

theorem Booked.received {s s' : Session} (h : s.Booked) {ch : Channel} {body : Bytes}
    {redelivered : Bool} (hchannel : s.channel = some ch)
    (hhandled : Handled (ch.lastTag + 1) (arrived ch body redelivered s) s') :
    Received ch s s' := by
  obtain ⟨hchannel', hgeneration', hledger⟩ := hhandled.books
  have hplace : (⟨(arrived ch body redelivered s).generation, ch.lastTag + 1⟩ : Place) =
      ch.nextPlace := by
    rw [Channel.nextPlace, h.current ch hchannel]
    rfl
  have harrived : (arrived ch body redelivered s).ledger =
      { s.ledger with issued := ch.nextPlace ::ₘ s.ledger.issued } := rfl
  rw [hplace, harrived] at hledger
  refine ⟨hchannel', hgeneration', ?_⟩
  rcases hledger with hheld | hconcluded
  · rw [hheld]
    exact .held
  · rw [hconcluded]
    exact .concluded

theorem Received.booked {ch : Channel} {s s' : Session} (h : Received ch s s') (hs : s.Booked)
    (hchannel : s.channel = some ch) : s'.Booked := by
  have hgeneration := hs.current ch hchannel
  refine ⟨(h.taken.follows (hs.fresh hchannel) hs.sound).1, fun place hmem => ⟨?_, ?_⟩, ?_⟩
  · rw [h.taken.issued, Multiset.mem_cons] at hmem
    rcases hmem with rfl | hmem
    · exact (hgeneration.trans h.generation.symm).le
    · exact (hs.reached place hmem).1.trans h.generation.symm.le
  · intro tag htag hsame
    rw [lastTag_failures h.channel, Option.mem_some_iff] at htag
    rw [h.taken.issued, Multiset.mem_cons] at hmem
    subst htag
    rcases hmem with rfl | hmem
    · exact le_rfl
    · have hsame' : place.generation = s.failures.generation := hsame.trans h.generation
      exact ((hs.reached place hmem).numbered (lastTag_failures hchannel) hsame').trans
        (Nat.le_succ _)
  · intro ch₁ hch₁
    rw [h.channel] at hch₁
    obtain rfl := Option.some.inj hch₁
    exact hgeneration.trans h.generation.symm

theorem carries_received {s s' : Session} {ch : Channel} {body : Bytes} {redelivered : Bool}
    (hchannel : s.channel = some ch)
    (hhandled : Handled (ch.lastTag + 1) (arrived ch body redelivered s) s') : Carries s s' := by
  intro h
  have hreceived := h.received hchannel hhandled
  refine ⟨hreceived.booked h hchannel,
    (hreceived.taken.follows (h.fresh hchannel) h.sound).2, fun hwhole => ⟨?_, ?_⟩⟩
  · intro _ place hsame hlapsed
    rw [hreceived.generation] at hsame
    exact hwhole.1 (Option.isSome_of_eq_some hchannel) place hsame (hreceived.taken.lapsed hlapsed)
  · intro hnone
    rw [hreceived.channel] at hnone
    exact absurd hnone (by simp)

theorem keptByConsume_carries : KeptByConsume Carries where
  answer := fun _ _ => carries_of_same rfl rfl rfl rfl
  routes := fun _ _ => carries_of_same rfl rfl rfl rfl
  channel := fun _ _ _ hchannel hsame => carries_channel hchannel hsame.generation hsame.lastTag
  received := fun _ _ _ _ _ hchannel hhandled => carries_received hchannel hhandled
  declared := fun _ _ _ hchannel => carries_channel hchannel rfl rfl
  consumed := fun _ _ _ hchannel => carries_channel hchannel rfl rfl

/-- On a new channel nothing has been delivered. -/
theorem Booked.opened {s : Session} (h : s.Booked) (houtstanding : s.outstandingDeferred = ∅)
    (usable : Bool) :
    let s' : Session := { s with
      channel := some { generation := s.generation + 1, usable := usable }
      generation := s.generation + 1 }
    s'.Booked ∧ s.ledger.Advances s'.ledger ∧ s'.Whole := by
  intro s'
  have hledger : s'.ledger = s.ledger := by
    unfold ledger
    rw [houtstanding, Finset.image_empty, Finset.image_empty]
  have hearlier : ∀ place ∈ s'.ledger.issued, place.generation ≤ s.generation :=
    fun place hmem => (h.reached place (hledger ▸ hmem)).1
  refine ⟨⟨?_, fun place hmem => ⟨?_, ?_⟩, fun ch hch => ?_⟩, ?_, ?_, ?_⟩
  · rw [hledger]
    exact h.sound
  · exact (hearlier place hmem).trans (Nat.le_succ _)
  · intro _ _ hsame
    have hlater : place.generation = s.generation + 1 := hsame
    exact absurd (hearlier place hmem) (by omega)
  · obtain rfl := Option.some.inj hch
    rfl
  · rw [hledger]
    exact Std.Refl.refl s.ledger
  · intro _ place hsame hlapsed
    have hlater : place.generation = s.generation + 1 := hsame
    exact absurd (hearlier place hlapsed.1) (by omega)
  · exact fun hnone => absurd hnone (by simp)

/-- Without a channel the deferred deliveries are left alone, and so is the channel. -/
def Idles (s s' : Session) : Prop :=
  s.channel = none → s'.channel = none ∧ s'.outstandingDeferred = s.outstandingDeferred

instance : IsPreorder Session Idles where
  refl _ := fun h => ⟨h, rfl⟩
  trans s t u := by
    intro hst htu hs
    obtain ⟨ht, hsame⟩ := hst hs
    obtain ⟨hu, hsame'⟩ := htu ht
    exact ⟨hu, hsame'.trans hsame⟩

theorem keptByAsk_idles : KeptByAsk Idles where
  answer := fun _ _ h => ⟨h, rfl⟩
  channel := fun _ _ _ hsome _ hnone => absurd (hsome.symm.trans hnone) (by simp)
  received := fun _ _ _ _ _ hsome _ hnone => absurd (hsome.symm.trans hnone) (by simp)

/-- A tag that was deferred is settled: its delivery is concluded. -/
theorem carries_settled {s s' : Session} {tag : Nat} (htag : tag ∈ s.outstandingDeferred)
    {settled : List (Place × Disposition)}
    (hperformed : Performed tag { s with
      outstandingDeferred := s.outstandingDeferred.erase tag, settled := settled } s') :
    Carries s s' := by
  have hinjective : Function.Injective (Place.mk s.generation) :=
    fun _ _ h => congrArg Place.tag h
  have hconclude := Ledger.Move.conclude s.ledger ⟨s.generation, tag⟩
    (Finset.mem_image_of_mem _ htag)
  have herase : s.ledger.held.erase ⟨s.generation, tag⟩ =
      (s.outstandingDeferred.erase tag).image (Place.mk s.generation) :=
    (Finset.image_erase hinjective s.outstandingDeferred tag).symm
  have hfinal : s'.ledger = { s.ledger with
        held := s.ledger.held.erase ⟨s.generation, tag⟩
        concluded := ⟨s.generation, tag⟩ ::ₘ s.ledger.concluded } →
      s'.failures.generation = s.failures.generation →
      s'.failures.lastTag = s.failures.lastTag → s'.channel = s.channel →
      s'.outstandingDeferred = s.outstandingDeferred.erase tag → Carries s s' := by
    intro hledger hgeneration hlast hchannel houtstanding h
    rw [← hledger] at hconclude
    have hissued : s'.ledger.issued = s.ledger.issued := by rw [hledger]
    refine ⟨⟨hconclude.sound h.sound, fun place hmem => ⟨?_, ?_⟩, fun ch hch => ?_⟩,
      hconclude.advances, fun hwhole => ⟨fun hsome place hsame hlapsed => ?_, fun hnone => ?_⟩⟩
    · rw [hgeneration]
      exact (h.reached place (hissued ▸ hmem)).1
    · rw [hgeneration, hlast]
      exact (h.reached place (hissued ▸ hmem)).2
    · rw [hchannel] at hch
      exact (h.current ch hch).trans hgeneration.symm
    · rw [hchannel] at hsome
      rw [hledger] at hlapsed
      exact hwhole.1 hsome place (hsame.trans hgeneration) (Ledger.lapsed_of_conclude hlapsed)
    · rw [hchannel] at hnone
      rw [houtstanding, hwhole.2 hnone, Finset.erase_empty]
  cases hperformed with
  | deferred =>
      refine carries_of_same ?_ rfl rfl (Finset.insert_erase htag)
      unfold ledger
      rw [Finset.insert_erase htag]
  | accepted disposition hnot =>
      exact hfinal (by rw [herase]; rfl) rfl rfl rfl rfl
  | refused disposition hnot =>
      exact hfinal (by rw [herase]; rfl) rfl rfl rfl rfl
  | failed disposition hnot =>
      exact hfinal (by rw [herase]; rfl) rfl rfl rfl rfl

end Session

namespace AmqpCppTransport

open Session

/-! ## The methods -/

/-- A channel exists only together with its connection. -/
def Wired (t : AmqpCppTransport) : Prop :=
  t.session.channel.isSome = true → t.connection.isSome = true

/-- The books have been moved on from an earlier ledger. -/
structure Moved (l : Ledger Place) (t : AmqpCppTransport) : Prop where
  wired : t.Wired
  booked : t.session.Booked
  advances : l.Advances t.session.ledger

/-- And they are whole. -/
def Settled (l : Ledger Place) (t : AmqpCppTransport) : Prop := Moved l t ∧ t.session.Whole

/-- What a throw leaves: unless it ends the process, the books are whole. -/
def SettledUnless (l : Ledger Place) (exn : Exn) (t : AmqpCppTransport) : Prop :=
  Moved l t ∧ (exn ≠ .terminate → t.session.Whole)

/-- The method keeps the books, whether it returns or throws. -/
def Accounts {α : Type} (x : Method α) : Prop :=
  ∀ l, Exec.Ensures (Settled l) x (fun _ => Settled l) (SettledUnless l)

theorem Settled.unless {l : Ledger Place} {t : AmqpCppTransport} (h : Settled l t) (exn : Exn) :
    SettledUnless l exn t := ⟨h.1, fun _ => h.2⟩

theorem accounts_pure {α : Type} (a : α) : Accounts (pure a : Method α) :=
  fun _ => Exec.ensures_pure fun _ => id

theorem accounts_throw {α : Type} (exn : Exn) : Accounts (throw exn : Method α) :=
  fun _ => Exec.ensures_throw fun _ h => h.unless exn

theorem accounts_bind {α β : Type} {x : Method α} {f : α → Method β} (hx : Accounts x)
    (hf : ∀ a, Accounts (f a)) : Accounts (x >>= f) :=
  fun l => Exec.ensures_bind (hx l) fun a => hf a l

theorem accounts_get_bind {α : Type} {f : AmqpCppTransport → Method α}
    (hf : ∀ t, Accounts (f t)) : Accounts (get >>= f) := by
  intro l t ht
  exact hf t l t ht

theorem accounts_map {α β : Type} {x : Method α} (f : α → β) (hx : Accounts x) :
    Accounts (f <$> x) := by
  rw [map_eq_pure_bind]
  exact accounts_bind hx fun _ => accounts_pure _

theorem Moved.carries {l : Ledger Place} {t t' : AmqpCppTransport} (h : Moved l t)
    (hwired : t'.Wired) (hcarries : Carries t.session t'.session) :
    Moved l t' ∧ (t.session.Whole → t'.session.Whole) := by
  obtain ⟨hbooked, hadvances, hwhole⟩ := hcarries h.booked
  exact ⟨⟨hwired, hbooked, IsTrans.trans _ _ _ h.advances hadvances⟩, hwhole⟩

/-- Serving leaves a connection where there was one. -/
theorem wired_serve {α : Type} (x : Serving Session α) {t : AmqpCppTransport} (h : t.Wired) :
    (serve x t).2.Wired := by
  unfold serve
  cases hconnection : t.connection with
  | none => exact h
  | some c => exact fun _ => rfl

/-- Whatever the method ends with, its books are whole. -/
theorem accounts_of_settled {α : Type} {x : Method α}
    (h : ∀ l t, Settled l t → Settled l (x t).2) : Accounts x := by
  intro l t ht
  have hsettled := h l t ht
  rcases hrun : x t with ⟨r, t'⟩
  rw [hrun] at hsettled
  cases r with
  | ok a => exact hsettled
  | error exn => exact hsettled.unless exn

theorem accounts_along {α : Type} {x : Method α} (hwired : ∀ t, t.Wired → (x t).2.Wired)
    (hx : Exec.Along (OnSession Carries) x) : Accounts x := by
  refine accounts_of_settled fun l t ht => ?_
  obtain ⟨hmoved, hwhole⟩ := ht.1.carries (hwired t ht.1.wired) (hx t)
  exact ⟨hmoved, hwhole ht.2⟩

theorem accounts_serve {α : Type} {x : Serving Session α} (hx : Exec.Along (OnOwner Carries) x) :
    Accounts (serve x) :=
  accounts_along (fun _ => wired_serve x) (onSession_serve hx)

/-- A write that leaves the channel and the books alone. -/
theorem accounts_write {f : Session → Session} (hledger : ∀ s, (f s).ledger = s.ledger)
    (hgeneration : ∀ s, (f s).generation = s.generation)
    (hchannel : ∀ s, (f s).channel = s.channel)
    (houtstanding : ∀ s, (f s).outstandingDeferred = s.outstandingDeferred) :
    Accounts (modifySession f) := by
  refine accounts_along (fun t ht hsome => ?_) fun t => ?_
  · exact ht ((hchannel t.session) ▸ hsome)
  · exact carries_of_same (hledger _) (hgeneration _) (hchannel _) (houtstanding _)

/-! ### Opening and tearing down -/

/-- `~Channel` leaves the rest of the session alone, and throws only to end the process. -/
theorem resetChannel_cases (out : Outbound) (t : AmqpCppTransport) :
    (∃ c, resetChannel out t = (.ok (), ⟨c, { t.session with channel := none }⟩)) ∨
      ∃ c, resetChannel out t = (.error .terminate, ⟨some c, t.session⟩) := by
  unfold resetChannel
  rw [Exec.get_bind]
  split
  · next hboth =>
      obtain ⟨c, hconnection⟩ := Option.isSome_iff_exists.mp hboth.1
      unfold fromDestructor
      rw [Exec.bind_apply, Exec.tryCatch_apply]
      unfold serve
      rw [hconnection]
      dsimp only
      rcases emit_cases out ⟨c, t.session⟩ with ⟨-, hrun⟩ | ⟨-, c', hrun | ⟨exn, hrun⟩⟩
      · rw [hrun]
        exact .inl ⟨some c, rfl⟩
      · rw [hrun]
        exact .inl ⟨some c', rfl⟩
      · rw [hrun]
        exact .inr ⟨c', rfl⟩
  · exact .inl ⟨t.connection, rfl⟩

/-- A destructor throws only to end the process. -/
theorem throws_destroy (env : TeardownEnv ChannelEvent) :
    Exec.Ensures (fun _ => True) (AmqpConnection.destroy react env) (fun _ _ => True)
      fun exn _ => exn = .terminate := by
  have hany : ∀ x : Serving Session Unit,
      Exec.Ensures (fun _ => True) x (fun _ _ => True) fun _ _ => True := by
    intro x w _
    rcases x w with ⟨r, w'⟩
    cases r <;> trivial
  apply Exec.ensures_bind
  · refine Exec.ensures_tryCatch (hany _) fun exn => ?_
    split
    · exact Exec.ensures_throw fun _ _ => rfl
    · exact Exec.ensures_pure fun _ => id
  · exact fun _ => Exec.ensures_tryCatch (hany _) fun _ => Exec.ensures_throw fun _ _ => rfl

/-- The destruction of a connection never throws. -/
theorem resetConnection_ok (env : TeardownEnv ChannelEvent) (t : AmqpCppTransport) :
    ∃ t', resetConnection env t = (.ok (), t') := by
  unfold resetConnection
  rw [Exec.get_bind]
  cases hconnection : t.connection with
  | none => exact ⟨t, rfl⟩
  | some c =>
      have hthrows := throws_destroy env ⟨c, t.session⟩ trivial
      have hsurvives := survives_destroy survives_react steps_react env ⟨c, t.session⟩
      dsimp only
      rw [Exec.bind_apply]
      unfold serve
      rw [hconnection]
      dsimp only
      rcases hrun : AmqpConnection.destroy react env ⟨c, t.session⟩ with ⟨r, w⟩
      rw [hrun] at hthrows hsurvives
      cases r with
      | ok _ => exact ⟨_, rfl⟩
      | error exn => exact absurd (congrArg Except.error hthrows) hsurvives

/-- A channel is opened, or nothing happens. -/
theorem openChannel_cases (out : Outbound) (w : Wire Session) :
    (∃ exn c, openChannel out w = (.error exn, ⟨c, w.owner⟩)) ∨
      ∃ c usable, openChannel out w = (.ok (), ⟨c, { w.owner with
        channel := some { generation := w.owner.generation + 1, usable := usable }
        generation := w.owner.generation + 1 }⟩) := by
  unfold openChannel sendOpen
  rw [Exec.bind_apply, Exec.get_bind]
  by_cases husable : w.connection.library = .usable
  · rw [if_pos husable]
    unfold onWire
    rw [Exec.zoom_apply]
    cases (onData out w.connection).1 with
    | ok _ => exact .inr ⟨_, _, rfl⟩
    | error exn => exact .inl ⟨exn, _, rfl⟩
  · rw [if_neg husable]
    exact .inr ⟨_, _, rfl⟩

/-- The books are whole, and there is no channel. -/
def Fresh (l : Ledger Place) (t : AmqpCppTransport) : Prop :=
  Settled l t ∧ t.session.channel = none

theorem Fresh.along {α : Type} {x : Method α} (hcarries : Exec.Along (OnSession Carries) x)
    (hidles : Exec.Along (OnSession Idles) x) (l : Ledger Place) :
    Exec.Ensures (Fresh l) x (fun _ => Fresh l) (SettledUnless l) := by
  rintro t ⟨ht, hnone⟩
  have hnone' := (hidles t hnone).1
  have hwired : (x t).2.Wired := fun hsome => by
    rw [hnone'] at hsome
    exact absurd hsome (by simp)
  obtain ⟨hmoved, hwhole⟩ := ht.1.carries hwired (hcarries t)
  rcases hrun : x t with ⟨r, t'⟩
  rw [hrun] at hmoved hwhole hnone'
  cases r with
  | ok a => exact ⟨⟨hmoved, hwhole ht.2⟩, hnone'⟩
  | error exn => exact Settled.unless ⟨hmoved, hwhole ht.2⟩ exn

theorem openConnection_accounts (env : OpenEnv) (l : Ledger Place) :
    Exec.Ensures (Fresh l) (openConnection env) (fun _ => Settled l) (SettledUnless l) := by
  have hasks := keptByConsume_carries.toKeptByAsk
  apply Exec.ensures_bind (Fresh.along (KeptByAsk.resetConnection hasks env.replaced)
    (KeptByAsk.resetConnection keptByAsk_idles env.replaced) l)
  intro _
  refine Exec.ensures_bind (Exec.ensures_modify (Q := fun _ => Fresh l) fun t ht => ?_) fun _ => ?_
  · exact ⟨⟨⟨fun _ => rfl, ht.1.1.booked, ht.1.1.advances⟩, ht.1.2⟩, ht.2⟩
  apply Exec.ensures_bind (Fresh.along (onSession_serve (hasks.connectConnection env.connect))
    (onSession_serve (keptByAsk_idles.connectConnection env.connect)) l)
  rintro _ t ⟨ht, hnone⟩
  unfold serve
  cases hconnection : t.connection with
  | none => exact ht.unless _
  | some c =>
      rcases openChannel_cases env.channelOpen ⟨c, t.session⟩ with
        ⟨exn, c', hrun⟩ | ⟨c', usable, hrun⟩
      · dsimp only
        rw [hrun]
        have hsettled : Settled l ⟨some c', t.session⟩ :=
          ⟨⟨fun _ => rfl, ht.1.booked, ht.1.advances⟩, ht.2⟩
        exact hsettled.unless exn
      · dsimp only
        rw [hrun]
        obtain ⟨hbooked, hadvances, hwhole⟩ := ht.1.booked.opened (ht.2.2 hnone) usable
        exact ⟨⟨fun _ => rfl, hbooked, IsTrans.trans _ _ _ ht.1.advances hadvances⟩, hwhole⟩

/-- A channel is given up. -/
theorem Moved.dropped {l : Ledger Place} {t : AmqpCppTransport} (h : Moved l t)
    (c : Option AmqpConnection) : Moved l ⟨c, { t.session with channel := none }⟩ where
  wired := fun hsome => absurd hsome (by simp)
  booked :=
    { sound := h.booked.sound
      reached := fun place hmem =>
        ⟨(h.booked.reached place hmem).1, fun _ htag => absurd htag (by simp [failures])⟩
      current := fun _ hch => absurd hch (by simp) }
  advances := h.advances

/-- What is deferred is let go. -/
theorem Moved.forgotten {l : Ledger Place} {t : AmqpCppTransport} (h : Moved l t) :
    Moved l ⟨t.connection, { t.session with outstandingDeferred := ∅ }⟩ := by
  have hmove := Ledger.Move.letGo t.session.ledger ∅ (Finset.empty_subset _)
  exact ⟨h.wired, ⟨hmove.sound h.booked.sound, h.booked.reached, h.booked.current⟩,
    IsTrans.trans _ _ _ h.advances hmove.advances⟩

/-- Without a channel and with nothing deferred the books are whole. -/
theorem whole_of_no_channel {s : Session} (hnone : s.channel = none)
    (houtstanding : s.outstandingDeferred = ∅) : s.Whole := by
  refine ⟨fun hsome => ?_, fun _ => houtstanding⟩
  rw [hnone] at hsome
  exact absurd hsome (by simp)

theorem redeclare_accounts (env : DeclareEnv) : Accounts (redeclare env) := by
  apply accounts_get_bind
  intro t
  dsimp only
  split
  · exact accounts_bind (accounts_serve (keptByConsume_carries.declare _ _ _))
      fun _ => accounts_pure _
  · exact accounts_pure _

theorem reconsume_accounts (env : ConsumeEnv) : Accounts (reconsume env) := by
  apply accounts_get_bind
  intro t
  split
  · exact accounts_serve (keptByConsume_carries.startConsuming _)
  · exact accounts_pure _

theorem attempt_accounts (env : ReconnectEnv) : Accounts (attempt env) := by
  intro l
  have hasks := keptByConsume_carries.toKeptByAsk
  have hchannel : Exec.Ensures (Settled l) (resetChannel env.channelClose)
      (fun _ t => Moved l t ∧ t.session.channel = none) (SettledUnless l) := by
    intro t ht
    rcases resetChannel_cases env.channelClose t with ⟨c, hrun⟩ | ⟨c, hrun⟩
    · rw [hrun]
      exact ⟨ht.1.dropped c, rfl⟩
    · rw [hrun]
      exact ⟨⟨fun _ => rfl, ht.1.booked, ht.1.advances⟩, fun hne => absurd rfl hne⟩
  have hconnection : Exec.Ensures (fun t => Moved l t ∧ t.session.channel = none)
      (resetConnection env.teardown) (fun _ t => Moved l t ∧ t.session.channel = none)
      (SettledUnless l) := by
    rintro t ⟨ht, hnone⟩
    have hcarries := KeptByAsk.resetConnection hasks env.teardown t
    have hidles := KeptByAsk.resetConnection keptByAsk_idles env.teardown t
    obtain ⟨t', hrun⟩ := resetConnection_ok env.teardown t
    rw [hrun] at hcarries hidles ⊢
    have hnone' := (hidles hnone).1
    exact ⟨(ht.carries (fun hsome => by rw [hnone'] at hsome; exact absurd hsome (by simp))
      hcarries).1, hnone'⟩
  apply Exec.ensures_bind hchannel
  intro _
  apply Exec.ensures_bind hconnection
  intro _
  refine Exec.ensures_bind (Exec.ensures_modify (Q := fun _ => Fresh l) ?_) fun _ => ?_
  · rintro t ⟨ht, hnone⟩
    exact ⟨⟨ht.forgotten, whole_of_no_channel hnone rfl⟩, hnone⟩
  apply Exec.ensures_bind (openConnection_accounts env.opening l)
  intro _
  apply Exec.ensures_bind (redeclare_accounts env.declare l)
  intro _
  apply Exec.ensures_bind (reconsume_accounts env.consume l)
  intro _
  refine accounts_bind ?_ (fun _ => accounts_pure true) l
  exact accounts_write (fun _ => rfl) (fun _ => rfl) (fun _ => rfl) fun _ => rfl

theorem serviceReconnect_accounts (env : ReconnectEnv) : Accounts (serviceReconnect env) := by
  apply accounts_get_bind
  intro t
  dsimp only
  split
  · exact accounts_pure _
  split
  · exact accounts_pure _
  split
  · exact accounts_pure _
  apply accounts_bind
  · exact accounts_write (fun _ => rfl) (fun _ => rfl) (fun _ => rfl) fun _ => rfl
  intro _ l
  refine Exec.ensures_tryCatch (attempt_accounts env l) fun exn => ?_
  split
  · next hstd =>
      -- what is caught has not ended the process
      have hne : exn ≠ .terminate := by
        rintro rfl
        exact absurd hstd (by simp [isStdException])
      have hbackoff : Accounts (do
          modifySession fun s => { s with nextAttempt := env.next s.policy s.failedAttempts }
          pure true) := by
        refine accounts_bind ?_ fun _ => accounts_pure true
        exact accounts_write (fun _ => rfl) (fun _ => rfl) (fun _ => rfl) fun _ => rfl
      exact (hbackoff l).mono (fun _ h => ⟨h.1, h.2 hne⟩) (fun _ _ => id) fun _ _ => id
  · exact Exec.ensures_throw fun _ => id

theorem pump_accounts (env : PumpEnv) : Accounts (pump env) := by
  apply accounts_get_bind
  intro t
  split
  · exact serviceReconnect_accounts env.reconnect
  apply accounts_bind (accounts_serve (keptByConsume_carries.pumpUntil _ _))
  intro _
  apply accounts_get_bind
  intro t
  cases t.session.handlerFailure with
  | some what =>
      refine accounts_bind ?_ fun _ => accounts_throw _
      exact accounts_write (fun _ => rfl) (fun _ => rfl) (fun _ => rfl) fun _ => rfl
  | none =>
      dsimp only
      split
      · exact serviceReconnect_accounts env.reconnect
      · exact accounts_pure _

theorem settle_accounts (tag : Nat) (disposition : Disposition) (out : Outbound) :
    Accounts (settle tag disposition out) := by
  refine accounts_of_settled fun l t ht => ?_
  rcases settle_or tag disposition out t with ⟨exn, -, hrun⟩ | ⟨htag, -, hchannel, hrun⟩
  · rw [hrun]
    exact ht
  · obtain ⟨c, hconnection⟩ := Option.isSome_iff_exists.mp (ht.1.wired hchannel)
    have hserve : (serve (perform tag out disposition) (unsettled tag disposition t)).2 =
        ⟨some (perform tag out disposition ⟨c, (unsettled tag disposition t).session⟩).2.connection,
          (perform tag out disposition ⟨c, (unsettled tag disposition t).session⟩).2.owner⟩ := by
      have hsome : (unsettled tag disposition t).connection = some c := hconnection
      unfold serve
      rw [hsome]
    have hwired : (serve (perform tag out disposition) (unsettled tag disposition t)).2.Wired := by
      rw [hserve]
      exact fun _ => rfl
    have hcarries := carries_settled htag
      (performed_perform tag out disposition ⟨c, (unsettled tag disposition t).session⟩)
    rw [hrun]
    obtain ⟨hmoved, hwhole⟩ := ht.1.carries hwired (by rw [hserve]; exact hcarries)
    exact ⟨hmoved, hwhole ht.2⟩

theorem requireChannel_accounts (method : String) : Accounts (requireChannel method) := by
  apply accounts_get_bind
  intro t
  split
  · exact accounts_throw _
  · exact accounts_pure _

theorem send_accounts (topic : Topic) (payload : Bytes) (options : SendOptions)
    (out : Outbound) : Accounts (send topic payload options out) := by
  apply accounts_bind (requireChannel_accounts _)
  intro _
  split
  · exact accounts_throw _
  apply accounts_bind (accounts_serve (onOwner_emit out))
  intro accepted
  split
  · refine accounts_bind ?_ fun _ => accounts_pure _
    exact accounts_write (fun _ => rfl) (fun _ => rfl) (fun _ => rfl) fun _ => rfl
  · exact accounts_pure _

theorem subscribe_accounts (topic : Topic) (callable : Bool) (env : ConsumeEnv) :
    Accounts (subscribe topic callable env) := by
  apply accounts_bind (requireChannel_accounts _)
  intro _
  apply accounts_get_bind
  intro t
  split
  · exact accounts_throw _
  split
  · exact accounts_throw _
  apply accounts_bind
  · exact accounts_write (fun _ => rfl) (fun _ => rfl) (fun _ => rfl) fun _ => rfl
  intro _
  apply accounts_bind (accounts_serve (keptByConsume_carries.startConsuming env))
  exact fun _ => accounts_write (fun _ => rfl) (fun _ => rfl) (fun _ => rfl) fun _ => rfl

theorem close_accounts (env : CloseEnv) : Accounts (close env) := by
  intro l
  have hasks := keptByConsume_carries.toKeptByAsk
  refine Exec.ensures_bind (Exec.ensures_modify
    (Q := fun _ t => Moved l t ∧ t.session.outstandingDeferred = ∅) fun t ht => ?_) fun _ => ?_
  · exact ⟨ht.1.forgotten, rfl⟩
  refine Exec.ensures_bind (Q := fun _ => Settled l) ?_ fun _ => ?_
  · rintro t ⟨ht, hnothing⟩
    rcases resetChannel_cases env.channelClose t with ⟨c, hrun⟩ | ⟨c, hrun⟩
    · rw [hrun]
      exact ⟨ht.dropped c, whole_of_no_channel rfl hnothing⟩
    · rw [hrun]
      exact ⟨⟨fun _ => rfl, ht.booked, ht.advances⟩, fun hne => absurd rfl hne⟩
  have hclose : Accounts (closeConnection env) := by
    apply accounts_get_bind
    intro t
    split
    · exact accounts_serve (hasks.closeConnection env.close env.turns)
    · exact accounts_pure _
  have hwrite : Accounts (modifySession fun s =>
      { s with handler := false, memory := s.memory.close }) :=
    accounts_write (fun _ => rfl) (fun _ => rfl) (fun _ => rfl) fun _ => rfl
  exact Exec.ensures_bind (hclose l) fun _ => hwrite l

/-- A call other than `connect` and the destructor keeps the books. -/
theorem call_accounts {call : Call} (hconnects : call.connects = false)
    (hdestroys : call.destroys = false) : Accounts call.method := by
  cases call with
  | connect endpoint env => exact absurd hconnects (by simp [Call.connects])
  | destroy env => exact absurd hdestroys (by simp [Call.destroys])
  | setReconnectPolicy policy =>
      unfold Call.method setReconnectPolicy
      exact accounts_write (fun _ => rfl) (fun _ => rfl) (fun _ => rfl) fun _ => rfl
  | ensureTopic topic options env =>
      apply accounts_bind (requireChannel_accounts _)
      intro _
      apply accounts_bind (accounts_serve (keptByConsume_carries.declare topic options env))
      exact fun _ => accounts_write (fun _ => rfl) (fun _ => rfl) (fun _ => rfl) fun _ => rfl
  | topicDepth topic env =>
      apply accounts_map
      apply accounts_bind (requireChannel_accounts _)
      exact fun _ => accounts_serve (keptByConsume_carries.ask _ _ _ _)
  | purgeTopic topic env =>
      apply accounts_map
      apply accounts_bind (requireChannel_accounts _)
      exact fun _ => accounts_serve (keptByConsume_carries.ask _ _ _ _)
  | send topic payload options out => exact accounts_map _ (send_accounts topic payload options out)
  | subscribe topic callable env => exact subscribe_accounts topic callable env
  | settle tag disposition out => exact settle_accounts tag disposition out
  | pump env => exact accounts_map _ (pump_accounts env)
  | close env => exact close_accounts env

/-- A `connect` on a transport without a channel does so too. -/
theorem connect_accounts (endpoint : Endpoint) (env : OpenEnv) (l : Ledger Place) :
    Exec.Ensures (Fresh l) (connect endpoint env) (fun _ => Settled l) (SettledUnless l) := by
  refine Exec.ensures_bind (Exec.ensures_modify (Q := fun _ => Fresh l) fun t ht => ?_)
    fun _ => openConnection_accounts env l
  exact ⟨⟨⟨ht.1.1.wired, ⟨ht.1.1.booked.sound, ht.1.1.booked.reached, ht.1.1.booked.current⟩,
    ht.1.1.advances⟩, ht.1.2⟩, ht.2⟩

/-- The destructor lets go of what is deferred. -/
theorem destroy_moves (env : CloseEnv) (l : Ledger Place) :
    Exec.Ensures (Settled l) (destroy env) (fun _ => Moved l) fun _ => Moved l := by
  have hasks := keptByConsume_carries.toKeptByAsk
  refine Exec.ensures_tryCatch (E := fun _ => Moved l) ?_ fun exn => ?_
  · refine Exec.ensures_bind (Q := fun _ t => Moved l t ∧ t.session.channel = none) ?_ fun _ => ?_
    · intro t ht
      rcases resetChannel_cases env.channelClose t with ⟨c, hrun⟩ | ⟨c, hrun⟩
      · rw [hrun]
        exact ⟨ht.1.dropped c, rfl⟩
      · rw [hrun]
        exact ⟨fun _ => rfl, ht.1.booked, ht.1.advances⟩
    · rintro t ⟨ht, hnone⟩
      have hcarries := KeptByAsk.resetConnection hasks ⟨env.close, env.turns, env.last⟩ t
      have hidles := KeptByAsk.resetConnection keptByAsk_idles ⟨env.close, env.turns, env.last⟩ t
      obtain ⟨t', hrun⟩ := resetConnection_ok ⟨env.close, env.turns, env.last⟩ t
      rw [hrun] at hcarries hidles ⊢
      have hnone' := (hidles hnone).1
      exact (ht.carries (fun hsome => by rw [hnone'] at hsome; exact absurd hsome (by simp))
        hcarries).1
  · split
    · exact Exec.ensures_throw fun _ => id
    · exact Exec.ensures_pure fun _ => id

/-- Any call on a transport whose books are whole moves them on, and leaves them whole
unless it ends the transport or the process. -/
theorem call_moves {l : Ledger Place} {t : AmqpCppTransport} {call : Call} (h : Settled l t)
    (hconnects : call.connects = true → t.session.channel = none) :
    Moved l (call.method t).2 ∧ (call.destroys = false → (call.method t).1 ≠ .error .terminate →
      (call.method t).2.session.Whole) := by
  have hends : ∀ {P : AmqpCppTransport → Prop}, P t →
      Exec.Ensures P call.method (fun _ => Settled l) (SettledUnless l) →
      Moved l (call.method t).2 ∧ ((call.method t).1 ≠ .error .terminate →
        (call.method t).2.session.Whole) := by
    intro P hP hensures
    have hrun := hensures t hP
    rcases hx : call.method t with ⟨r, t'⟩
    rw [hx] at hrun
    cases r with
    | ok _ => exact ⟨hrun.1, fun _ => hrun.2⟩
    | error exn => exact ⟨hrun.1, fun hne => hrun.2 fun heq => hne (congrArg Except.error heq)⟩
  cases hdestroys : call.destroys with
  | true =>
      refine ⟨?_, fun hnot => absurd hnot (by simp)⟩
      cases call with
      | destroy env =>
          have hrun := destroy_moves env l t h
          change Moved l (destroy env t).2
          rcases hx : destroy env t with ⟨r, t'⟩
          rw [hx] at hrun
          cases r <;> exact hrun
      | _ => exact absurd hdestroys (by simp [Call.destroys])
  | false =>
      cases hcall : call.connects with
      | false =>
          obtain ⟨hmoved, hwhole⟩ := hends h (call_accounts hcall hdestroys l)
          exact ⟨hmoved, fun _ => hwhole⟩
      | true =>
          cases call with
          | connect endpoint env =>
              obtain ⟨hmoved, hwhole⟩ := hends ⟨h, hconnects rfl⟩ (connect_accounts endpoint env l)
              exact ⟨hmoved, fun _ => hwhole⟩
          | _ => exact absurd hcall (by simp [Call.connects])

end AmqpCppTransport

namespace Process

open AmqpCppTransport Session

/-! ## Whole runs -/

/-- `connect` is called on a transport that has no channel: on a new one, after a `close`,
or after an attempt to connect that failed. -/
def ConnectsAfresh (p : Process) (call : Call) : Prop :=
  p.running = true → call.connects = true → p.transport.session.channel = none

instance (p : Process) (call : Call) : Decidable (p.ConnectsAfresh call) :=
  inferInstanceAs (Decidable (_ = true → _ = true → _ = none))

/-- The deliveries of the transport, as a ledger. -/
def ledger (p : Process) : Ledger Place := p.transport.session.ledger

/-- What every step keeps. -/
structure InOrder (p : Process) : Prop where
  wired : p.transport.Wired
  booked : p.transport.session.Booked
  whole : p.running = true → p.transport.session.Whole

theorem inOrder_step {p : Process} {call : Call} (h : p.InOrder)
    (hconnects : p.ConnectsAfresh call) :
    p.ledger.Advances (machine.step p call).ledger ∧ (machine.step p call).InOrder := by
  unfold machine step
  dsimp only
  by_cases hrunning : p.running = true
  · rw [if_pos hrunning]
    have hsettled : Settled p.ledger p.transport :=
      ⟨⟨h.wired, h.booked, Std.Refl.refl p.ledger⟩, h.whole hrunning⟩
    obtain ⟨hmoved, hwhole⟩ := call_moves hsettled (hconnects hrunning)
    refine ⟨hmoved.advances, hmoved.wired, hmoved.booked, fun hruns => ?_⟩
    unfold running at hruns
    rw [Bool.and_eq_true, Bool.not_eq_true', Bool.not_eq_true', decide_eq_false_iff_not] at hruns
    exact hwhole hruns.1 hruns.2
  · rw [if_neg hrunning]
    exact ⟨Std.Refl.refl p.ledger, h⟩

theorem inOrder_init : machine.init.InOrder := by
  refine ⟨fun hsome => absurd hsome (by decide), ⟨?_, ?_, ?_⟩, fun _ => ?_⟩
  · exact Ledger.sound_empty
  · exact fun _ hmem => absurd hmem (Multiset.notMem_zero _)
  · exact fun _ hch => absurd hch (by simp [machine])
  · exact whole_of_no_channel rfl rfl

/-- What is deferred was delivered on the current channel, and its handler did not throw. -/
theorem InOrder.settles {p : Process} (h : p.InOrder) (call : Call) : p.Settles call := by
  intro hrunning tag htag hdeferred
  have hheld : (⟨p.transport.session.generation, tag⟩ : Place) ∈ p.ledger.held :=
    Finset.mem_image_of_mem _ hdeferred
  have hreached := h.booked.reached _ (h.booked.sound.held_issued _ hheld)
  refine ⟨fun ch hch => ?_, fun a ha hsame => ?_⟩
  · have hlast : p.transport.session.failures.lastTag = some ch.lastTag :=
      congrArg (Option.map Channel.lastTag) hch
    exact hreached.numbered hlast rfl
  · refine h.booked.sound.held_open _ hheld ?_
    rw [← hsame]
    exact Multiset.mem_coe.mpr (List.mem_append_right _ (List.mem_map_of_mem ha))

/-- Where `connect` is called on transports without a channel, every settlement is of a
delivery of the current channel. -/
theorem settles_of_afresh {calls : List Call} (hafresh : machine.Guarded ConnectsAfresh calls) :
    machine.Guarded Settles calls :=
  .of_invariant (I := InOrder)
    (fun _ call h hconnects => ⟨h.settles call, (inOrder_step h hconnects).2⟩) inOrder_init hafresh

/-- No delivery is handed out twice or resolved twice, what is resolved or deferred was
handed out, and while its channel lives no delivery is without one of the two. -/
structure Accounted (p : Process) : Prop where
  sound : p.ledger.Sound
  complete : p.running = true → ∀ ch ∈ p.transport.session.channel, ∀ place ∈ p.ledger.issued,
    place.generation = ch.generation → place ∈ p.ledger.concluded ∨ place ∈ p.ledger.held

theorem InOrder.accounted {p : Process} (h : p.InOrder) : p.Accounted := by
  refine ⟨h.booked.sound, fun hrunning ch hch place hissued hsame => ?_⟩
  have hopen := (h.whole hrunning).1 (Option.isSome_of_eq_some hch) place
    (hsame.trans (h.booked.current ch hch))
  by_contra hneither
  rw [not_or] at hneither
  exact hopen ⟨hissued, hneither.2, hneither.1⟩

/-- Each delivery is resolved at most once, and what was let go with its channel is never
resolved or taken up again, by whatever settlements arrive later. -/
theorem deliveries_accounted (calls : List Call) (hafresh : machine.Guarded ConnectsAfresh calls) :
    machine.Always Accounted calls ∧
      ∀ before after, before <+: after → after <+: calls →
        (machine.run before).ledger.Advances (machine.run after).ledger := by
  constructor
  · have horder : machine.Always InOrder calls :=
      .of_guarded (fun p call h hconnects => (inOrder_step h hconnects).2) inOrder_init hafresh
    exact horder.mono fun p h => h.accounted
  · intro before after hbefore hafter
    have hrelated := Machine.Guarded.related
      (R := fun p p' : Process => p.ledger.Advances p'.ledger)
      (fun p call h hconnects => inOrder_step h hconnects) inOrder_init hafresh hbefore hafter
    exact hrelated

/-! ### A run -/

/-- A read that brings a delivery, which the handler defers. -/
def defers (body : Bytes) (redelivered : Bool) : Call :=
  .pump { turns := confirmed [.channel (.received body redelivered (.returned .deferred) {})] }

/-- Of two deferred deliveries one is settled before the connection is lost. -/
def replacedRun : List Call :=
  plainRun ++ [defers [1] false, .settle 1 .ack {}, defers [2] false, .pump reconnects]

/-- The other comes again as the first delivery of the new channel.  Its old number settles
nothing, its new one does. -/
def settledRun : List Call := replacedRun ++ [defers [2] true, .settle 2 .ack {}, .settle 1 .ack {}]

theorem deliveries_accounted_settledRun :
    machine.Always Accounted settledRun ∧
      (∀ after, replacedRun <+: after → after <+: settledRun →
        (machine.run after).ledger.Lapsed ⟨1, 2⟩) ∧
      (machine.run settledRun).ledger.concluded = {⟨2, 1⟩, ⟨1, 1⟩} := by
  obtain ⟨halways, hadvances⟩ := deliveries_accounted settledRun (by decide +kernel)
  have hlapsed : (machine.run replacedRun).ledger.Lapsed ⟨1, 2⟩ :=
    ⟨by decide +kernel, by decide +kernel, by decide +kernel⟩
  refine ⟨halways, fun after hbefore hafter => ?_, by decide +kernel⟩
  exact (hadvances replacedRun after hbefore hafter).lapsed _ hlapsed

end Process

end Motus.Amqp
