import Motus.Amqp.Frame
import Motus.Amqp.SimpleTransport
import Motus.Amqp.Usability

set_option autoImplicit false

/-!
# A closed AMQP transport

`pump` of the AMQP backends cannot tell a connection that its owner has closed from
one that was lost.  A closed transport stays down exactly when the end of its
connection is known and its policy leaves no attempt.

`close` waits for the broker's answer, so whether the end is known when it returns depends
on what it is served before its deadline.  `endKnown` says so from the state before and the
turns, and the flags tell of the `close` in exactly these cases.
-/

namespace Motus.Amqp

open Motus.Foundation Motus.Transport

/-! ## How a wait for the end of a connection ends -/

section Endings

variable {κ : Type}

/-- The callback is the end of the connection. -/
def Callback.ends (socket : Socket) : Callback κ → Bool
  | .onClosed => true
  | .onData out => (socket.write out).isSome
  | .onReady | .onError _ | .channel _ => false

/-- The turn meets the end of the connection. -/
def Turn.ends (socket : Socket) : Turn κ → Bool
  | .expired _ => false
  | .completed result parse =>
      match socket.read result with
      | .failed _ => true
      | .data _ => parse.callbacks.any (Callback.ends socket)

/-- The end of the connection comes before the deadline. -/
def endServed (socket : Socket) : List (Turn κ) → Bool
  | [] => false
  | .expired _ :: _ => false
  | .completed result parse :: rest =>
      Turn.ends socket (.completed result parse) || endServed socket rest

end Endings

namespace AmqpConnection

/-- What a piece of serving does to a connection whose owner has no channel: it may
learn that the connection has ended. -/
structure Learns (ended : Bool) (c c' : AmqpConnection) : Prop where
  closed : c'.closed = (c.closed || ended)
  socket : c'.socket = c.socket

theorem Learns.refl (c : AmqpConnection) : Learns false c c := ⟨by simp, rfl⟩

theorem Learns.trans {a b : Bool} {c d e : AmqpConnection} (h : Learns a c d) (h' : Learns b d e) :
    Learns (a || b) c e :=
  ⟨by rw [h'.closed, h.closed, Bool.or_assoc], h'.socket.trans h.socket⟩

/-- A write that does not throw either succeeds or finds the connection closed. -/
theorem learns_onData {out : Outbound} {c c' : AmqpConnection}
    (h : AmqpConnection.onData out c = (.ok (), c')) :
    Learns (c.socket.write out).isSome c c' ∧ c'.closed = c.closed := by
  rw [onData_apply] at h
  cases hwrite : c.socket.write out with
  | none =>
      rw [hwrite] at h
      rw [← (Prod.mk.inj h).2]
      exact ⟨⟨by simp, rfl⟩, rfl⟩
  | some ec =>
      rw [hwrite] at h
      dsimp only at h
      cases hclosed : c.closed with
      | false =>
          rw [hclosed] at h
          exact absurd (congrArg Prod.fst h) (by simp)
      | true =>
          rw [← (Prod.mk.inj h).2]
          exact ⟨⟨by rw [hclosed]; rfl, rfl⟩, rfl⟩

end AmqpConnection

namespace Session

open AmqpConnection

/-- Without a channel, what the library reports about one is nothing. -/
theorem react_of_no_channel {w : Wire Session} (hnone : w.owner.channel = none)
    (event : ChannelEvent) : react event w = (.ok (), w) := by
  cases event with
  | cancelled topic =>
      simp only [react, modifyChannel, modifySession, Exec.modify_apply, hnone, Option.map_none]
      rw [← hnone]
  | answered count => simp only [react, Exec.get_bind, hnone, Exec.pure_apply]
  | failed message => simp only [react, Exec.get_bind, hnone, Exec.pure_apply]
  | received body redelivered outcome out =>
      simp only [react, Exec.get_bind, hnone, Exec.pure_apply]

/-- The owner has no channel, and the connection may have learnt of its end. -/
structure Closing (ended : Bool) (w w' : Wire Session) : Prop where
  owner : w'.owner = w.owner
  connection : Learns ended w.connection w'.connection

theorem Closing.refl (w : Wire Session) : Closing false w w := ⟨rfl, .refl w.connection⟩

theorem Closing.trans {a b : Bool} {u v w : Wire Session} (h : Closing a u v) (h' : Closing b v w) :
    Closing (a || b) u w := ⟨h'.owner.trans h.owner, h.connection.trans h'.connection⟩

theorem closing_onWire {ended : Bool} {x : Exec Exn AmqpConnection Unit} {w w' : Wire Session}
    (hx : ∀ c', x w.connection = (.ok (), c') → Learns ended w.connection c')
    (h : onWire x w = (.ok (), w')) : Closing ended w w' := by
  simp only [onWire, Exec.zoom_apply, Prod.mk.injEq] at h
  obtain ⟨hok, rfl⟩ := h
  exact ⟨rfl, hx _ (Prod.ext hok rfl)⟩

theorem closing_callback {first : Callback ChannelEvent} {w w' : Wire Session}
    (hnone : w.owner.channel = none) (h : callback react first w = (.ok (), w')) :
    Closing (first.ends w.connection.socket) w w' := by
  cases first with
  | onData out => exact closing_onWire (fun c' hc' => (learns_onData hc').1) h
  | onReady =>
      refine closing_onWire (fun c' hc' => ?_) h
      rw [← (Prod.mk.inj hc').2]
      exact ⟨by simp [note, Callback.ends], rfl⟩
  | onError message =>
      refine closing_onWire (fun c' hc' => ?_) h
      rw [← (Prod.mk.inj hc').2]
      exact ⟨by simp [note, Callback.ends], rfl⟩
  | onClosed =>
      refine closing_onWire (fun c' hc' => ?_) h
      rw [← (Prod.mk.inj hc').2]
      exact ⟨by simp [note, Callback.ends], rfl⟩
  | channel event =>
      have hrun := react_of_no_channel hnone event
      rw [callback, hrun] at h
      rw [← (Prod.mk.inj h).2]
      exact .refl w

theorem closing_callbacks {calls : List (Callback ChannelEvent)} {w w' : Wire Session}
    (hnone : w.owner.channel = none) (h : callbacks react calls w = (.ok (), w')) :
    Closing (calls.any (Callback.ends w.connection.socket)) w w' := by
  induction calls generalizing w with
  | nil =>
      rw [← (Prod.mk.inj h).2]
      exact .refl w
  | cons first rest ih =>
      obtain ⟨_, w₁, hfirst, hrest⟩ := Exec.bind_eq_ok h
      have hclosing := closing_callback hnone hfirst
      have hnone₁ : w₁.owner.channel = none := by rw [hclosing.owner, hnone]
      have hlater := ih hnone₁ hrest
      rw [hclosing.connection.socket] at hlater
      exact hclosing.trans hlater

/-- One turn: `false` is returned when the turn met an end, or a deadline. -/
theorem closing_pumpOnce {result : ReadResult} {parse : Parse ChannelEvent} {w w' : Wire Session}
    {served : Bool} (hnone : w.owner.channel = none)
    (h : pumpOnce react (.completed result parse) w = (.ok served, w')) :
    Closing (Turn.ends w.connection.socket (.completed result parse)) w w' ∧
      (served = false → Turn.ends w.connection.socket (.completed result parse) = true) := by
  rw [pumpOnce_completed_apply, readCompleted_apply] at h
  simp only [Turn.ends]
  cases hread : w.connection.socket.read result with
  | failed ec =>
      rw [hread] at h
      cases hends : endsConnection ec.kind with
      | true =>
          simp only [hends, if_true] at h
          rw [← (Prod.mk.inj h).2]
          exact ⟨⟨rfl, ⟨by simp [note], rfl⟩⟩, fun _ => rfl⟩
      | false =>
          simp only [hends, Bool.false_eq_true, if_false] at h
          exact absurd (congrArg Prod.fst h) (by simp)
  | data bytes =>
      rw [hread] at h
      dsimp only at h
      rcases hrun : callbacks react parse.callbacks _ with ⟨r, w₁⟩
      rw [hrun] at h
      cases r with
      | error exn => exact absurd (congrArg Prod.fst h) (by simp)
      | ok _ =>
          obtain ⟨hserved, hw'⟩ := Prod.mk.inj h
          have hclosing := closing_callbacks (by exact hnone) hrun
          rw [← hw']
          refine ⟨⟨hclosing.owner, ⟨hclosing.connection.closed, hclosing.connection.socket⟩⟩, ?_⟩
          intro hfalse
          rw [← Except.ok.inj hserved] at hfalse
          exact absurd hfalse (by simp)

/-- The wait of `close` learns of the end exactly when it comes in time. -/
theorem closing_pumpUntil {turns : List (Turn ChannelEvent)} {w w' : Wire Session} {b : Bool}
    (hnone : w.owner.channel = none) (hopen : w.connection.closed = false)
    (h : pumpUntil react (fun w => w.connection.closed) turns w = (.ok b, w')) :
    Closing (endServed w.connection.socket turns) w w' := by
  induction turns generalizing w with
  | nil =>
      rw [← (Prod.mk.inj h).2]
      exact .refl w
  | cons turn rest ih =>
      unfold pumpUntil at h
      rw [Exec.get_bind, if_neg (by rw [hopen]; simp)] at h
      obtain ⟨served, w₁, honce, hrest⟩ := Exec.bind_eq_ok h
      cases turn with
      | expired drained =>
          rw [pumpOnce_expired_apply] at honce
          obtain ⟨hserved, rfl⟩ := Prod.mk.inj honce
          rw [← Except.ok.inj hserved] at hrest
          rw [← (Prod.mk.inj hrest).2]
          refine ⟨rfl, ?_⟩
          simp only [readExpired, Exec.modify_apply, endServed]
          cases w.connection.socket.read drained with
          | data bytes => exact ⟨by simp, rfl⟩
          | failed ec => dsimp only; split <;> exact ⟨by simp [note], rfl⟩
      | completed result parse =>
          obtain ⟨hclosing, hstops⟩ := closing_pumpOnce hnone honce
          unfold endServed
          cases served with
          | false =>
              rw [hstops rfl] at hclosing ⊢
              rw [if_neg (by simp), Exec.get_bind] at hrest
              rw [← (Prod.mk.inj hrest).2, Bool.true_or]
              exact hclosing
          | true =>
              rw [if_pos rfl] at hrest
              have hnone₁ : w₁.owner.channel = none := by rw [hclosing.owner, hnone]
              cases hends : Turn.ends w.connection.socket (.completed result parse) with
              | false =>
                  rw [hends] at hclosing
                  have hopen₁ : w₁.connection.closed = false := by
                    rw [hclosing.connection.closed, hopen, Bool.or_false]
                  have hlater := ih hnone₁ hopen₁ hrest
                  rw [hclosing.connection.socket] at hlater
                  exact hclosing.trans hlater
              | true =>
                  rw [hends] at hclosing
                  have hclosed₁ : w₁.connection.closed = true := by
                    rw [hclosing.connection.closed, Bool.or_true]
                  have hstop : w' = w₁ := by
                    cases rest with
                    | nil => exact ((Prod.mk.inj hrest).2).symm
                    | cons next rest =>
                        unfold pumpUntil at hrest
                        rw [Exec.get_bind, if_pos hclosed₁] at hrest
                        exact ((Prod.mk.inj hrest).2).symm
                  rw [hstop, Bool.true_or]
                  exact hclosing

/-- A frame of the channel that is sent without a throw. -/
theorem emit_ok {out : Outbound} {sent : Bool} {w w' : Wire Session}
    (h : emit out w = (.ok sent, w')) :
    w'.owner = w.owner ∧ w'.connection.closed = w.connection.closed ∧
      w'.connection.socket = w.connection.socket ∧
      w'.connection.library = w.connection.library := by
  simp only [emit, Exec.get_bind] at h
  cases hchannel : w.owner.channel with
  | none =>
      simp only [hchannel] at h
      rw [← (Prod.mk.inj h).2]
      exact ⟨rfl, rfl, rfl, rfl⟩
  | some channel =>
      simp only [hchannel] at h
      split at h
      · obtain ⟨_, w₁, hdata, hsent⟩ := Exec.bind_eq_ok h
        rw [← (Prod.mk.inj hsent).2]
        simp only [onWire, Exec.zoom_apply, Prod.mk.injEq] at hdata
        obtain ⟨hok, rfl⟩ := hdata
        obtain ⟨hlearns, hclosed⟩ := learns_onData (Prod.ext hok rfl)
        refine ⟨rfl, hclosed, hlearns.socket, ?_⟩
        dsimp only
        rw [onData_apply]
        cases w.connection.socket.write out <;> rfl
      · rw [← (Prod.mk.inj h).2]
        exact ⟨rfl, rfl, rfl, rfl⟩

/-- Whether a connection that is closed is known to be closed afterwards. -/
def endKnown (c : AmqpConnection) (turns : List (Turn ChannelEvent)) : Bool :=
  c.closed || decide (c.library ≠ .absent) && endServed c.socket turns

theorem close_learns {out : Outbound} {turns : List (Turn ChannelEvent)} {w w' : Wire Session}
    (hnone : w.owner.channel = none) (h : AmqpConnection.close react out turns w = (.ok (), w')) :
    w'.owner = w.owner ∧ w'.connection.closed = endKnown w.connection turns := by
  have hreturned : ∀ {u u' : Wire Session}, onWire closeReturned u = (.ok (), u') →
      u'.owner = u.owner ∧ u'.connection.closed = u.connection.closed := by
    intro u u' hu
    rw [← (Prod.mk.inj hu).2]
    exact ⟨rfl, rfl⟩
  unfold AmqpConnection.close at h
  rw [Exec.get_bind] at h
  unfold endKnown
  split at h
  · rename_i hserves
    obtain ⟨hpresent, hopen⟩ := hserves
    obtain ⟨_, w₁, hlibrary, h⟩ := Exec.bind_eq_ok h
    obtain ⟨_, w₂, hwait, h⟩ := Exec.bind_eq_ok h
    obtain ⟨howner, hclosed⟩ := hreturned h
    have hsent : w₁.owner = w.owner ∧ w₁.connection.closed = false ∧
        w₁.connection.socket = w.connection.socket := by
      simp only [onWire, Exec.zoom_apply, Prod.mk.injEq, closeLibrary_apply] at hlibrary
      obtain ⟨hok, rfl⟩ := hlibrary
      dsimp only
      by_cases husable : w.connection.library = .usable
      · rw [if_pos husable] at hok ⊢
        obtain ⟨hlearns, hsame⟩ := learns_onData (Prod.ext hok rfl)
        exact ⟨rfl, hsame.trans hopen, hlearns.socket⟩
      · rw [if_neg husable]
        exact ⟨rfl, hopen, rfl⟩
    have hnone₁ : w₁.owner.channel = none := by rw [hsent.1, hnone]
    have hclosing := closing_pumpUntil hnone₁ hsent.2.1 hwait
    refine ⟨howner.trans (hclosing.owner.trans hsent.1), ?_⟩
    rw [hclosed, hclosing.connection.closed, hsent.2.1, hsent.2.2, hopen, decide_eq_true hpresent,
      Bool.true_and]
  · rename_i hserves
    obtain ⟨howner, hclosed⟩ := hreturned h
    refine ⟨howner, ?_⟩
    rw [hclosed]
    cases hknown : w.connection.closed with
    | true => rfl
    | false =>
        have habsent : w.connection.library = .absent := by
          by_contra hpresent
          exact hserves ⟨hpresent, hknown⟩
        rw [habsent]
        rfl

/-- A `close` that returns has ended the connection, answered or not. -/
theorem hasEnded_close {out : Outbound} {turns : List (Turn ChannelEvent)} {w w' : Wire Session}
    (h : AmqpConnection.close react out turns w = (.ok (), w')) : w'.connection.HasEnded := by
  have hreturned : ∀ {u u' : Wire Session}, onWire closeReturned u = (.ok (), u') →
      u'.connection.HasEnded := by
    intro u u' hu
    rw [← (Prod.mk.inj hu).2]
    exact ⟨.closeReturned, List.mem_cons_self, by decide⟩
  unfold AmqpConnection.close at h
  rw [Exec.get_bind] at h
  split at h
  · obtain ⟨_, w₁, -, h⟩ := Exec.bind_eq_ok h
    obtain ⟨_, w₂, -, h⟩ := Exec.bind_eq_ok h
    exact hreturned h
  · exact hreturned h

/-- After any events, `ready()` and `closed()` tell of a `close` that returned exactly when
the end was known before, or is met by what `close` serves before its deadline. -/
theorem truthful_close_iff (endpoint : Endpoint) (events : List Event) {out : Outbound}
    {turns : List (Turn ChannelEvent)} {w w' : Wire Session}
    (hevents : w.connection = (AmqpConnection.machine endpoint).run events)
    (hnone : w.owner.channel = none)
    (h : AmqpConnection.close react out turns w = (.ok (), w')) :
    w'.connection.Truthful ↔ endKnown w.connection turns = true := by
  have hsteps : WireSteps Event.OfServing w w' := by
    have hclose := steps_close steps_react out turns w
    rwa [h] at hclose
  -- what `close` does to the connection is a run of events itself
  obtain ⟨served, hserved⟩ := hsteps.exists_run endpoint
  have hrecorded : w'.connection.Recorded := by
    rw [hserved, hevents, Machine.run, ← Machine.runFrom_append]
    exact recorded_run endpoint (events ++ served)
  rw [hrecorded.truthful_iff, (close_learns hnone h).2]
  exact ⟨fun hknown => hknown (hasEnded_close h), fun hknown _ => hknown⟩

end Session

namespace AmqpCppTransport

open AmqpConnection Session

/-- The end of the connection is known when a `close` returns. -/
def endKnown (t : AmqpCppTransport) (env : CloseEnv) : Bool :=
  t.connection.all fun c => Session.endKnown c env.turns

/-- The destruction of the channel, when it does not end the process. -/
theorem resetChannel_ok {out : Outbound} {t t' : AmqpCppTransport}
    (h : resetChannel out t = (.ok (), t')) :
    t'.session = { t.session with channel := none } ∧
      ∀ turns, (t'.connection.all fun c => Session.endKnown c turns) =
        t.connection.all fun c => Session.endKnown c turns := by
  unfold resetChannel at h
  rw [Exec.get_bind] at h
  split at h
  · obtain ⟨sent, t₁, hcaught, hdropped⟩ := Exec.bind_eq_ok h
    have hserve : serve (emit out) t = (.ok sent, t₁) := by
      unfold fromDestructor at hcaught
      rw [Exec.tryCatch_apply] at hcaught
      rcases hrun : serve (emit out) t with ⟨r, t₂⟩
      rw [hrun] at hcaught
      cases r with
      | ok a => exact hcaught
      | error exn => exact absurd (congrArg Prod.fst hcaught) (by simp)
    obtain ⟨c, c', hconnection, hemit, hconnection'⟩ := serve_ok hserve
    obtain ⟨howner, hclosed, hsocket, hlibrary⟩ := emit_ok hemit
    dsimp only at howner hclosed hsocket hlibrary
    rw [modifySession_ok hdropped]
    refine ⟨by rw [howner], fun turns => ?_⟩
    dsimp only
    rw [hconnection, hconnection', Option.all_some, Option.all_some, Session.endKnown, hclosed,
      hlibrary, hsocket, Session.endKnown]
  · rw [modifySession_ok h]
    exact ⟨rfl, fun _ => rfl⟩

/-- What `close` leaves behind when it returns. -/
structure Closed (t : AmqpCppTransport) (env : CloseEnv) (t' : AmqpCppTransport) : Prop where
  channel : t'.session.channel = none
  policy : t'.session.policy = t.session.policy
  failedAttempts : t'.session.failedAttempts = t.session.failedAttempts
  known : t'.connection.all AmqpConnection.isClosed = t.endKnown env

theorem close_returns {env : CloseEnv} {t t' : AmqpCppTransport}
    (h : close env t = (.ok (), t')) : Closed t env t' := by
  unfold close at h
  obtain ⟨_, t₀, hforgotten, h⟩ := Exec.bind_eq_ok h
  obtain ⟨_, t₁, hchannel, h⟩ := Exec.bind_eq_ok h
  obtain ⟨_, t₂, hclose, hwritten⟩ := Exec.bind_eq_ok h
  obtain ⟨hsession, hknown⟩ := resetChannel_ok hchannel
  rw [modifySession_ok hforgotten] at hsession hknown
  have hclosed : t₂.session = t₁.session ∧ t₂.connection.all AmqpConnection.isClosed =
      t₁.connection.all fun c => Session.endKnown c env.turns := by
    unfold closeConnection at hclose
    rw [Exec.get_bind] at hclose
    split at hclose
    · obtain ⟨c, c', hconnection, hrun, hconnection'⟩ := serve_ok hclose
      have hnone : t₁.session.channel = none := by rw [hsession]
      obtain ⟨howner, hends⟩ := close_learns hnone hrun
      refine ⟨howner, ?_⟩
      rw [hconnection', hconnection, Option.all_some, Option.all_some]
      exact hends
    · rename_i hnone
      rw [← (Prod.mk.inj hclose).2]
      rw [Option.not_isSome_iff_eq_none] at hnone
      rw [hnone]
      exact ⟨rfl, rfl⟩
  rw [modifySession_ok hwritten]
  refine ⟨?_, ?_, ?_, hclosed.2.trans (hknown env.turns)⟩
  · dsimp only
    rw [hclosed.1, hsession]
  · dsimp only
    rw [hclosed.1, hsession]
  · dsimp only
    rw [hclosed.1, hsession]

/-! ## Down and staying down -/

/-- The policy leaves no reconnection attempt. -/
def spent (t : AmqpCppTransport) : Bool :=
  !t.session.policy.enabled || decide (t.session.policy.maxAttempts ≤ t.session.failedAttempts)

/-- The transport is not ready, and `pump` reports so and does nothing. -/
structure StaysDown (t : AmqpCppTransport) : Prop where
  ready : t.isReady = false
  pump : ∀ env, pump env t = (.ok false, t)

/-- A reconnection attempt is never reported as the end. -/
theorem serviceReconnect_of_not_spent {t : AmqpCppTransport} (h : t.spent = false) :
    (serviceReconnect { now := t.session.nextAttempt } t).1 ≠ .ok false := by
  simp only [spent, Bool.or_eq_false_iff, Bool.not_eq_false', decide_eq_false_iff_not] at h
  rw [serviceReconnect_apply, if_neg (by rw [h.1]; simp), if_neg h.2, if_neg (lt_irrefl _)]
  have hattempt : ∀ env t, (attempt env t).1 ≠ .ok false := by
    intro env t hfalse
    obtain ⟨_, _, -, h⟩ := Exec.bind_eq_ok (Prod.ext hfalse rfl)
    obtain ⟨_, _, -, h⟩ := Exec.bind_eq_ok h
    obtain ⟨_, _, -, h⟩ := Exec.bind_eq_ok h
    obtain ⟨_, _, -, h⟩ := Exec.bind_eq_ok h
    obtain ⟨_, _, -, h⟩ := Exec.bind_eq_ok h
    obtain ⟨_, _, -, h⟩ := Exec.bind_eq_ok h
    obtain ⟨_, _, -, h⟩ := Exec.bind_eq_ok h
    exact absurd (congrArg Prod.fst h) (by simp)
  have hnot := hattempt { now := t.session.nextAttempt } t.beginAttempt
  rcases hrun : attempt { now := t.session.nextAttempt } t.beginAttempt with ⟨r, t'⟩
  rw [hrun] at hnot
  cases r with
  | ok b => exact hnot
  | error exn => dsimp only; split <;> simp

/-- A transport stays down exactly when it knows that its connection has ended and
no attempt is left. -/
theorem staysDown_iff (t : AmqpCppTransport) :
    t.StaysDown ↔ t.connection.all AmqpConnection.isClosed = true ∧ t.spent = true := by
  constructor
  · intro h
    have hclosed : t.connection.all AmqpConnection.isClosed = true := by
      by_contra hopen
      have hpump := h.pump {}
      rw [pump_apply, if_neg hopen] at hpump
      cases hconnection : t.connection with
      | none => exact hopen (by rw [hconnection]; rfl)
      | some c =>
          have hserve : serve (pumpUntil react (fun _ => false) []) t = (.ok false, t) := by
            rcases t with ⟨connection, session⟩
            obtain rfl : connection = some c := hconnection
            rfl
          rw [hserve] at hpump
          dsimp only at hpump
          rw [pumpServed_apply] at hpump
          cases hfailure : t.session.handlerFailure with
          | some what =>
              rw [hfailure] at hpump
              exact absurd (congrArg Prod.fst hpump) (by simp)
          | none =>
              have hnot : t.connection.any AmqpConnection.isClosed = false := by
                rw [hconnection, Option.any_some]
                rw [hconnection, Option.all_some] at hopen
                exact Bool.eq_false_iff.mpr hopen
              rw [hfailure, hnot] at hpump
              exact absurd (congrArg Prod.fst hpump) (by simp)
    refine ⟨hclosed, ?_⟩
    by_contra hleft
    have hpump := h.pump { reconnect := { now := t.session.nextAttempt } }
    rw [pump_apply, if_pos hclosed] at hpump
    exact serviceReconnect_of_not_spent (Bool.eq_false_iff.mpr hleft) (congrArg Prod.fst hpump)
  · rintro ⟨hclosed, hspent⟩
    refine ⟨?_, fun env => ?_⟩
    · unfold isReady
      cases hconnection : t.connection with
      | none => rfl
      | some c =>
          rw [hconnection, Option.all_some] at hclosed
          rw [Option.any_some, AmqpConnection.isReady]
          rw [AmqpConnection.isClosed] at hclosed
          rw [hclosed]
          exact Bool.and_false _
    · rw [pump_apply, if_pos hclosed, serviceReconnect_apply]
      simp only [spent, Bool.or_eq_true, Bool.not_eq_true', decide_eq_true_eq] at hspent
      split
      · rfl
      split
      · rfl
      · rename_i henabled hattempts
        exact absurd hspent (by simp [henabled, hattempts])

/-! ## Calls on a closed transport -/

/-- A call that connects. -/
def Call.connects : Call → Bool
  | .connect _ _ => true
  | _ => false

/-- A call that allows reconnection attempts. -/
def Call.enables : Call → Bool
  | .setReconnectPolicy policy => policy.enabled && decide (0 < policy.maxAttempts)
  | _ => false

/-- The transport has no channel, and its connection is gone or known to be closed. -/
structure Parked (t : AmqpCppTransport) : Prop where
  channel : t.session.channel = none
  closed : t.connection.all AmqpConnection.isClosed = true

theorem resetChannel_of_no_channel {t : AmqpCppTransport} (h : t.session.channel = none)
    (out : Outbound) : resetChannel out t = (.ok (), t) := by
  unfold resetChannel
  rw [Exec.get_bind, if_neg (by rw [h]; simp)]
  have hsame : { t.session with channel := none } = t.session := by rw [← h]
  simp only [modifySession, Exec.modify_apply, hsame]

theorem closeConnection_of_closed {t : AmqpCppTransport}
    (h : t.connection.all AmqpConnection.isClosed = true) (env : CloseEnv) :
    closeConnection env t =
      (.ok (), { t with connection := t.connection.map fun c => (closeReturned c).2 }) := by
  unfold closeConnection
  rw [Exec.get_bind]
  rcases t with ⟨connection, session⟩
  cases connection with
  | none => rfl
  | some c =>
      have hclosed : ¬ (c.library ≠ .absent ∧ c.closed = false) := by
        rw [Option.all_some, AmqpConnection.isClosed] at h
        rw [h]
        simp
      have hclose : AmqpConnection.close react env.close env.turns ⟨c, session⟩ =
          onWire closeReturned ⟨c, session⟩ := by
        unfold AmqpConnection.close
        rw [Exec.get_bind, if_neg hclosed]
      rw [if_pos (by rfl)]
      simp only [serve, hclose]
      rfl

theorem Parked.close {t : AmqpCppTransport} (h : Parked t) (env : CloseEnv) :
    Parked (close env t).2 ∧ (close env t).2.spent = t.spent := by
  unfold AmqpCppTransport.close modifySession
  rw [Exec.modify_bind, Exec.bind_ok (resetChannel_of_no_channel (by exact h.channel) _),
    Exec.bind_ok (closeConnection_of_closed (by exact h.closed) _)]
  refine ⟨⟨h.channel, ?_⟩, rfl⟩
  have hclosed := h.closed
  dsimp only [Exec.modify_apply]
  cases hconnection : t.connection with
  | none => rfl
  | some c =>
      rw [hconnection] at hclosed
      exact hclosed

/-- What a call does to a transport that stays down. -/
theorem Parked.call {t : AmqpCppTransport} (h : Parked t) (hspent : t.spent = true) {call : Call}
    (hconnects : call.connects = false) (hdestroys : call.destroys = false) :
    Parked (call.method t).2 ∧ (call.method t).2.spent = !call.enables := by
  have hdown := (staysDown_iff t).mpr ⟨h.closed, hspent⟩
  have hrefused : ∀ {α : Type} (method : String) (f : Unit → Method α),
      Parked ((requireChannel method >>= f) t).2 ∧
        ((requireChannel method >>= f) t).2.spent = true := by
    intro α method f
    rw [requireChannel_bind, if_pos (by rw [h.channel]; rfl)]
    exact ⟨h, hspent⟩
  cases call with
  | connect endpoint env => exact absurd hconnects (by simp [Call.connects])
  | destroy env => exact absurd hdestroys (by simp [Call.destroys])
  | setReconnectPolicy policy =>
      refine ⟨⟨h.channel, h.closed⟩, ?_⟩
      simp only [Call.method, setReconnectPolicy, modifySession, Exec.modify_apply, spent,
        Call.enables, Bool.not_and]
      simp [Nat.pos_iff_ne_zero]
  | ensureTopic topic options env => exact hrefused _ _
  | topicDepth topic env =>
      rw [Call.method, Exec.map_apply]
      exact hrefused _ _
  | purgeTopic topic env =>
      rw [Call.method, Exec.map_apply]
      exact hrefused _ _
  | send topic payload options out =>
      rw [Call.method, Exec.map_apply]
      exact hrefused _ _
  | subscribe topic callable env => exact hrefused _ _
  | settle tag disposition out => exact hrefused _ _
  | pump env =>
      rw [Call.method, Exec.map_apply, hdown.pump env]
      exact ⟨h, hspent⟩
  | close env =>
      obtain ⟨hparked, hsame⟩ := h.close env
      exact ⟨hparked, hsame.trans hspent⟩

end AmqpCppTransport

namespace Process

open AmqpCppTransport

/-- While the process runs, its transport stays down. -/
def StaysDown (p : Process) : Prop := p.running = true → p.transport.StaysDown

/-- A closed transport of a running process stays down exactly as long as no attempt is
allowed again. -/
theorem staysDown_iff_enables {p : Process} (hparked : p.running = true → p.transport.Parked)
    (hdown : p.StaysDown) (rest : List Call) (hconnects : ∀ call ∈ rest, call.connects = false) :
    machine.AlwaysFrom StaysDown p rest ↔
      machine.GuardedFrom (fun p call => p.running = true → call.enables = false) p rest := by
  -- what a step does, from a state that is still down
  have hstep : ∀ (p : Process) (call : Call), call.connects = false →
      (p.running = true → p.transport.Parked) → p.StaysDown →
      ((machine.step p call).running = true → p.running = true ∧
        (machine.step p call).transport.Parked ∧
        (machine.step p call).transport.spent = !call.enables) := by
    intro p call hcall hparked hdown hafter
    unfold machine step at hafter ⊢
    dsimp only at hafter ⊢
    split at hafter
    · rename_i hrunning
      rw [if_pos hrunning]
      have hdestroys : call.destroys = false := by
        simp only [running, Bool.and_eq_true, Bool.not_eq_true'] at hafter
        exact hafter.1
      have hspent := ((staysDown_iff _).mp (hdown hrunning)).2
      exact ⟨hrunning, (hparked hrunning).call hspent hcall hdestroys⟩
    · rename_i hstopped
      exact absurd hafter hstopped
  refine Machine.alwaysFrom_iff_guardedFrom_of_kind
    (J := fun p => p.running = true → p.transport.Parked) ?_ ?_ ?_ rest hconnects hparked hdown
  · exact fun p call hcall hJ hP hafter => (hstep p call hcall hJ hP hafter).2.1
  · intro p call hcall hJ hP hguard hafter
    obtain ⟨hrunning, hparked', hspent⟩ := hstep p call hcall hJ hP hafter
    rw [hguard hrunning] at hspent
    exact (staysDown_iff _).mpr ⟨hparked'.closed, hspent⟩
  · intro p call hcall hJ hP hnext hrunning
    cases henables : call.enables with
    | false => rfl
    | true =>
        have hafter : (machine.step p call).running = true := by
          unfold machine step
          dsimp only
          rw [if_pos hrunning]
          cases call with
          | setReconnectPolicy policy => rfl
          | _ => exact absurd henables (by simp [Call.enables])
        obtain ⟨-, -, hspent⟩ := hstep p call hcall hJ hP hafter
        rw [((staysDown_iff _).mp (hnext hafter)).2, henables] at hspent
        exact absurd hspent (by simp)

/-- After a `close` that returned. -/
theorem staysDown_iff_of_close {p : Process} (hrunning : p.running = true) {env : CloseEnv}
    (hclose : (AmqpCppTransport.close env p.transport).1 = .ok ()) (rest : List Call)
    (hconnects : ∀ call ∈ rest, call.connects = false) :
    machine.AlwaysFrom StaysDown (machine.step p (.close env)) rest ↔
      p.transport.endKnown env = true ∧ p.transport.spent = true ∧
        machine.GuardedFrom (fun p call => p.running = true → call.enables = false)
          (machine.step p (.close env)) rest := by
  obtain ⟨t', hrun⟩ : ∃ t', AmqpCppTransport.close env p.transport = (.ok (), t') :=
    ⟨_, Prod.ext hclose rfl⟩
  have hclosed := close_returns hrun
  have hstep : machine.step p (.close env) = ⟨t', false, false⟩ := by
    have hmethod : Call.method (.close env) = AmqpCppTransport.close env := rfl
    unfold machine step
    dsimp only
    rw [if_pos hrunning, hmethod, hrun]
    rfl
  rw [hstep]
  have hspent : t'.spent = p.transport.spent := by
    rw [spent, spent, hclosed.policy, hclosed.failedAttempts]
  constructor
  · intro halways
    obtain ⟨hknown, hleft⟩ := (staysDown_iff t').mp (halways.head rfl)
    refine ⟨hclosed.known.symm.trans hknown, hspent.symm.trans hleft, ?_⟩
    exact (staysDown_iff_enables (fun _ => ⟨hclosed.channel, hknown⟩)
      (fun _ => (staysDown_iff t').mpr ⟨hknown, hleft⟩) rest hconnects).mp halways
  · rintro ⟨hknown, hleft, hguarded⟩
    have hknown' := hclosed.known.trans hknown
    have hleft' := hspent.trans hleft
    exact (staysDown_iff_enables (fun _ => ⟨hclosed.channel, hknown'⟩)
      (fun _ => (staysDown_iff t').mpr ⟨hknown', hleft'⟩) rest hconnects).mpr hguarded

end Process

/-! ## The other backend -/

namespace SimpleAmqpTransport

/-- The policy leaves no reconnection attempt. -/
def spent (t : SimpleAmqpTransport) : Bool :=
  !t.policy.enabled || decide (t.policy.maxAttempts ≤ t.failedAttempts)

/-- The transport is not ready, and `pump` reports so and does nothing. -/
structure StaysDown (t : SimpleAmqpTransport) : Prop where
  ready : t.isReady = false
  pump : ∀ env, pump env t = (.ok false, t)

/-- The transport has no channel. -/
structure Parked (t : SimpleAmqpTransport) : Prop where
  channel : t.channel = none
  connected : t.connected = false

theorem attempt_not_false (env : ReconnectEnv) (t : SimpleAmqpTransport) :
    (attempt env t).1 ≠ .ok false := by
  intro hfalse
  obtain ⟨_, _, -, h⟩ := Exec.bind_eq_ok (Prod.ext hfalse rfl : attempt env t = (.ok false, _))
  obtain ⟨_, _, -, h⟩ := Exec.bind_eq_ok h
  obtain ⟨_, _, -, h⟩ := Exec.bind_eq_ok h
  obtain ⟨_, _, -, h⟩ := Exec.bind_eq_ok h
  obtain ⟨_, _, -, h⟩ := Exec.bind_eq_ok h
  exact absurd (congrArg Prod.fst h) (by simp)

theorem Parked.staysDown_iff {t : SimpleAmqpTransport} (h : Parked t) :
    t.StaysDown ↔ t.spent = true := by
  have hready : t.isReady = false := by
    rw [isReady, h.connected]
    rfl
  have hpump : ∀ env, pump env t = serviceReconnect env.reconnect t := by
    intro env
    unfold pump
    rw [Exec.get_bind, if_pos hready]
  constructor
  · intro hdown
    by_contra hleft
    simp only [spent, Bool.or_eq_true, Bool.not_eq_true', decide_eq_true_eq, not_or] at hleft
    have hfalse := hdown.pump { reconnect := { now := t.nextAttempt } }
    rw [hpump, serviceReconnect_apply, if_neg hleft.1, if_neg hleft.2,
      if_neg (lt_irrefl _)] at hfalse
    have hnot := attempt_not_false { now := t.nextAttempt }
      { t with failedAttempts := t.failedAttempts + 1 }
    rcases hrun : attempt { now := t.nextAttempt } _ with ⟨r, t'⟩
    rw [hrun] at hnot hfalse
    cases r with
    | ok b => exact hnot (congrArg Prod.fst hfalse)
    | error exn =>
        dsimp only at hfalse
        split at hfalse
        · exact absurd (congrArg Prod.fst hfalse) (by simp)
        · exact absurd (congrArg Prod.fst hfalse) (by simp)
  · intro hspent
    refine ⟨hready, fun env => ?_⟩
    rw [hpump, serviceReconnect_apply]
    simp only [spent, Bool.or_eq_true, Bool.not_eq_true', decide_eq_true_eq] at hspent
    split
    · rfl
    split
    · rfl
    · rename_i henabled hattempts
      exact absurd hspent (by simp [henabled, hattempts])

/-- A call that connects. -/
def Call.connects : Call → Bool
  | .connect _ _ => true
  | _ => false

/-- A call that allows reconnection attempts. -/
def Call.enables : Call → Bool
  | .setReconnectPolicy policy => policy.enabled && decide (0 < policy.maxAttempts)
  | _ => false

/-- What a call does to a transport that stays down. -/
theorem Parked.call {t : SimpleAmqpTransport} (h : Parked t) (hspent : t.spent = true)
    {call : Call} (hconnects : call.connects = false) :
    Parked (call.method t).2 ∧ (call.method t).2.spent = !call.enables := by
  have hrefused : ∀ {α : Type} (method : String) (f : Unit → Method α),
      Parked ((requireChannel method >>= f) t).2 ∧
        ((requireChannel method >>= f) t).2.spent = true := by
    intro α method f
    rw [requireChannel_bind, if_pos (by rw [h.channel]; rfl)]
    exact ⟨h, hspent⟩
  cases call with
  | connect endpoint env => exact absurd hconnects (by simp [Call.connects])
  | setReconnectPolicy policy =>
      refine ⟨⟨h.channel, h.connected⟩, ?_⟩
      simp only [Call.method, setReconnectPolicy, Exec.modify_apply, spent, Call.enables,
        Bool.not_and]
      simp [Nat.pos_iff_ne_zero]
  | ensureTopic topic options env =>
      have hthrown : ensureTopic topic options env t =
          (.error (.logicError "ensureTopic() called before connect()"), t) := by
        unfold ensureTopic
        rw [requireChannel_bind, if_pos (by rw [h.channel]; rfl)]
        rfl
      rw [Call.method, Exec.bind_error hthrown]
      exact ⟨h, hspent⟩
  | topicDepth env =>
      rw [Call.method, Exec.map_apply]
      exact hrefused _ _
  | purgeTopic depth purge =>
      rw [Call.method, Exec.map_apply]
      exact hrefused _ _
  | send payload options publish =>
      rw [Call.method, Exec.map_apply]
      exact hrefused _ _
  | subscribe topic callable consume => exact hrefused _ _
  | pump env =>
      rw [Call.method, Exec.map_apply, (h.staysDown_iff.mpr hspent).pump env]
      exact ⟨h, hspent⟩
  | close => exact ⟨⟨rfl, rfl⟩, hspent⟩

/-- After a `close`. -/
theorem staysDown_iff_of_close (t : SimpleAmqpTransport) (rest : List Call)
    (hconnects : ∀ call ∈ rest, call.connects = false) :
    machine.AlwaysFrom StaysDown (machine.step t .close) rest ↔
      t.spent = true ∧
        machine.GuardedFrom (fun _ call => call.enables = false) (machine.step t .close) rest := by
  have hparked : Parked (machine.step t .close) := ⟨rfl, rfl⟩
  have hspent : (machine.step t .close).spent = t.spent := rfl
  generalize machine.step t .close = t' at hparked hspent ⊢
  have hrun : t'.StaysDown → (machine.AlwaysFrom StaysDown t' rest ↔
      machine.GuardedFrom (fun _ call => call.enables = false) t' rest) := by
    refine fun hdown => Machine.alwaysFrom_iff_guardedFrom_of_kind (J := Parked) ?_ ?_ ?_ rest
      hconnects hparked hdown
    · exact fun u call hcall hJ hP => (hJ.call (hJ.staysDown_iff.mp hP) hcall).1
    · intro u call hcall hJ hP hguard
      obtain ⟨hJ', hleft⟩ := hJ.call (hJ.staysDown_iff.mp hP) hcall
      rw [hguard] at hleft
      exact hJ'.staysDown_iff.mpr hleft
    · intro u call hcall hJ hP hnext
      obtain ⟨hJ', hleft⟩ := hJ.call (hJ.staysDown_iff.mp hP) hcall
      have hdown : (call.method u).2.spent = true := hJ'.staysDown_iff.mp hnext
      rw [hdown] at hleft
      simpa using hleft.symm
  constructor
  · intro halways
    have hleft := hparked.staysDown_iff.mp halways.head
    exact ⟨hspent.symm.trans hleft, (hrun halways.head).mp halways⟩
  · rintro ⟨hleft, hguarded⟩
    exact (hrun (hparked.staysDown_iff.mpr (hspent.trans hleft))).mpr hguarded

end SimpleAmqpTransport

end Motus.Amqp
