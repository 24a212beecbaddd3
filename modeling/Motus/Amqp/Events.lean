import Motus.Amqp.Connection
import Motus.Foundation.Machine

set_option autoImplicit false

/-!
# The events of a connection

Whatever its methods do to an `AmqpConnection` is a sequence of events: a piece
of `connect`, `pumpOnce` or `close`, or a callback of the library.  The machine
below takes them in any order.  `steps_pumpUntil` and its companions say that the
methods take no other steps, so that what every event keeps, every method keeps.
-/

namespace Motus.Amqp

open Motus.Foundation Motus.Transport Relation

namespace AmqpConnection

/-- What can happen to a connection, by the environment or by its own methods. -/
inductive Event where
  | reachPeer (reach : Reach)
  | constructLibrary (header : Outbound)
  | onData (out : Outbound)
  | onReady
  | onError (message : Option String)
  | onClosed
  | readCompleted (result : ReadResult)
  | parsed (consumed : Nat)
  | readExpired (drained : ReadResult)
  | closeLibrary (out : Outbound)
  | closeReturned
  deriving DecidableEq, Repr

namespace Event

/-- The connection after an event, whether it returns or throws. -/
def step (c : AmqpConnection) : Event → AmqpConnection
  | .reachPeer reach => (AmqpConnection.reachPeer reach c).2
  | .constructLibrary header => (AmqpConnection.constructLibrary header c).2
  | .onData out => (AmqpConnection.onData out c).2
  | .onReady => (AmqpConnection.onReady c).2
  | .onError message => (AmqpConnection.onError message c).2
  | .onClosed => (AmqpConnection.onClosed c).2
  | .readCompleted result => (AmqpConnection.readCompleted result c).2
  | .parsed consumed => (AmqpConnection.parsed consumed c).2
  | .readExpired drained => (AmqpConnection.readExpired drained c).2
  | .closeLibrary out => (AmqpConnection.closeLibrary out c).2
  | .closeReturned => (AmqpConnection.closeReturned c).2

end Event

/-- A connection to an endpoint, and the events of its life. -/
def machine (endpoint : Endpoint) : Machine AmqpConnection Event where
  init := ofEndpoint endpoint
  step := Event.step

/-! ## What the events do -/

theorem onData_apply (out : Outbound) (c : AmqpConnection) :
    AmqpConnection.onData out c =
      match c.socket.write out with
      | none => (.ok (), { c with bytesSent := c.bytesSent + out.size })
      | some ec =>
          (if c.closed then .ok () else .error (.runtimeError ("socket write failed: " ++ ec.message)),
            note .writeFailed { c with bytesSent := c.bytesSent + out.size, closed := true }) := by
  simp only [AmqpConnection.onData, Exec.modify_bind, Exec.get_bind]
  cases c.socket.write out with
  | none => rfl
  | some ec => cases c.closed <;> simp

theorem readCompleted_apply (result : ReadResult) (c : AmqpConnection) :
    AmqpConnection.readCompleted result c =
      match c.socket.read result with
      | .failed ec =>
          (if endsConnection ec.kind then .ok false
            else .error (.runtimeError ("socket read failed: " ++ ec.message)),
            note .readFailed { c with closed := true })
      | .data bytes =>
          (.ok true, { c with bytesReceived := c.bytesReceived + bytes.length
                              inBuffer := c.inBuffer ++ bytes
                              delivered := c.delivered ++ bytes }) := by
  simp only [AmqpConnection.readCompleted, Exec.get_bind]
  cases c.socket.read result with
  | data bytes => rfl
  | failed ec => cases hends : endsConnection ec.kind <;> simp [hends]

theorem closeLibrary_apply (out : Outbound) (c : AmqpConnection) :
    AmqpConnection.closeLibrary out c =
      if c.library = .usable then AmqpConnection.onData out { c with library := .unusable }
      else (.ok (), c) := by
  simp only [AmqpConnection.closeLibrary, Exec.get_bind]
  split <;> rfl

theorem constructLibrary_apply (header : Outbound) (c : AmqpConnection) :
    AmqpConnection.constructLibrary header c =
      match AmqpConnection.onData header c with
      | (.ok _, c') => (.ok (), { c' with library := .usable })
      | (.error e, c') => (.error e, c') := by
  unfold AmqpConnection.constructLibrary
  rw [Exec.bind_apply]
  rcases AmqpConnection.onData header c with ⟨r, c'⟩
  cases r <;> rfl

variable {κ τ : Type}

theorem pumpOnce_expired_apply (react : κ → Serving τ Unit) (drained : ReadResult) (w : Wire τ) :
    pumpOnce react (.expired drained) w =
      (.ok false, { w with connection := (AmqpConnection.readExpired drained w.connection).2 }) :=
  rfl

theorem pumpOnce_completed_apply (react : κ → Serving τ Unit) (result : ReadResult)
    (parse : Parse κ) (w : Wire τ) :
    pumpOnce react (.completed result parse) w =
      match AmqpConnection.readCompleted result w.connection with
      | (.error e, c) => (.error e, { w with connection := c })
      | (.ok false, c) => (.ok false, { w with connection := c })
      | (.ok true, c) =>
          match callbacks react parse.callbacks { w with connection := c } with
          | (.error e, w') => (.error e, w')
          | (.ok _, w') => (.ok true, { w' with
              connection := (AmqpConnection.parsed parse.consumed w'.connection).2 }) := by
  unfold pumpOnce
  dsimp only
  rw [Exec.bind_apply]
  simp only [onWire, Exec.zoom_apply]
  rcases AmqpConnection.readCompleted result w.connection with ⟨r, c⟩
  cases r with
  | error e => rfl
  | ok arrived =>
      cases arrived with
      | false => rfl
      | true =>
          dsimp only
          rw [if_pos rfl, Exec.bind_apply]
          rcases callbacks react parse.callbacks { w with connection := c } with ⟨r, w'⟩
          cases r <;> rfl

/-- No event takes the end of a connection back. -/
theorem Event.closed_step {c : AmqpConnection} (hclosed : c.closed = true) (e : Event) :
    (e.step c).closed = true := by
  have honData : ∀ (out : Outbound) (d : AmqpConnection), d.closed = true →
      (AmqpConnection.onData out d).2.closed = true := by
    intro out d hd
    rw [onData_apply]
    cases d.socket.write out with
    | none => exact hd
    | some ec => rfl
  cases e with
  | reachPeer reach => cases reach <;> exact hclosed
  | onData out => exact honData out c hclosed
  | constructLibrary header =>
      have hheader := honData header c hclosed
      simp only [Event.step, constructLibrary_apply]
      rcases hrun : AmqpConnection.onData header c with ⟨r, c'⟩
      rw [hrun] at hheader
      cases r <;> exact hheader
  | onReady => exact hclosed
  | onError message => exact hclosed
  | onClosed => rfl
  | readCompleted result =>
      simp only [Event.step, readCompleted_apply]
      cases c.socket.read result with
      | data bytes => exact hclosed
      | failed ec => rfl
  | parsed consumed => exact hclosed
  | readExpired drained =>
      simp only [Event.step, AmqpConnection.readExpired, Exec.modify_apply]
      cases c.socket.read drained with
      | data bytes => exact hclosed
      | failed ec => dsimp only; split <;> exact hclosed
  | closeLibrary out =>
      simp only [Event.step, closeLibrary_apply]
      split
      · exact honData out _ hclosed
      · exact hclosed
  | closeReturned => exact hclosed

/-- The events of `pumpUntil` and `close`; the others belong to `connect`. -/
def Event.OfServing : Event → Prop
  | .reachPeer _ | .constructLibrary _ => False
  | _ => True

/-- While it is served, a protocol object does not become usable. -/
theorem Event.library_step {c : AmqpConnection} (h : c.library ≠ .usable) {e : Event}
    (he : e.OfServing) : (e.step c).library ≠ .usable := by
  have honData : ∀ (out : Outbound) (d : AmqpConnection),
      (AmqpConnection.onData out d).2.library = d.library := by
    intro out d
    rw [onData_apply]
    cases d.socket.write out <;> rfl
  cases e with
  | reachPeer reach => exact he.elim
  | constructLibrary header => exact he.elim
  | onData out =>
      simp only [Event.step]
      rw [honData]
      exact h
  | onReady => exact h
  | onError message => simp [Event.step, AmqpConnection.onError, note]
  | onClosed => simp [Event.step, AmqpConnection.onClosed, note]
  | readCompleted result =>
      simp only [Event.step, readCompleted_apply]
      cases c.socket.read result <;> exact h
  | parsed consumed => exact h
  | readExpired drained =>
      simp only [Event.step, AmqpConnection.readExpired, Exec.modify_apply]
      cases c.socket.read drained with
      | data bytes => exact h
      | failed ec => dsimp only; split <;> exact h
  | closeLibrary out =>
      simp only [Event.step, closeLibrary_apply]
      rw [if_neg h]
      exact h
  | closeReturned => exact h

/-! ## The methods take steps of the machine -/

/-- Any number of events of a kind. -/
def Steps (kind : Event → Prop) : AmqpConnection → AmqpConnection → Prop :=
  ReflTransGen fun c c' => ∃ e : Event, kind e ∧ c' = e.step c

section Steps

variable {kind : Event → Prop}

theorem Steps.refl (c : AmqpConnection) : Steps kind c c := ReflTransGen.refl

theorem Steps.trans {c d e : AmqpConnection} (hcd : Steps kind c d) (hde : Steps kind d e) :
    Steps kind c e := ReflTransGen.trans hcd hde

theorem Steps.event (c : AmqpConnection) {e : Event} (he : kind e) : Steps kind c (e.step c) :=
  ReflTransGen.single ⟨e, he, rfl⟩

theorem Steps.mono {kind' : Event → Prop} (hkind : ∀ e, kind e → kind' e)
    {c c' : AmqpConnection} (h : Steps kind c c') : Steps kind' c c' := by
  induction h with
  | refl => exact Steps.refl c
  | tail _ hlast ih =>
      obtain ⟨e, he, hstep⟩ := hlast
      exact ReflTransGen.tail ih ⟨e, hkind e he, hstep⟩

/-- Steps are runs of the machine. -/
theorem Steps.exists_run {c c' : AmqpConnection} (endpoint : Endpoint) (h : Steps kind c c') :
    ∃ events, c' = (machine endpoint).runFrom c events := by
  induction h with
  | refl => exact ⟨[], rfl⟩
  | tail _ hlast ih =>
      obtain ⟨events, rfl⟩ := ih
      obtain ⟨e, -, rfl⟩ := hlast
      refine ⟨events ++ [e], ?_⟩
      rw [Machine.runFrom, Machine.runFrom, List.foldl_append]
      rfl

theorem Steps.closed {c c' : AmqpConnection} (h : Steps kind c c') (hclosed : c.closed = true) :
    c'.closed = true := by
  induction h with
  | refl => exact hclosed
  | tail _ hlast ih =>
      obtain ⟨e, -, rfl⟩ := hlast
      exact Event.closed_step ih e

theorem Steps.library {c c' : AmqpConnection} (h : Steps Event.OfServing c c')
    (hlibrary : c.library ≠ .usable) : c'.library ≠ .usable := by
  induction h with
  | refl => exact hlibrary
  | tail _ hlast ih =>
      obtain ⟨e, he, rfl⟩ := hlast
      exact Event.library_step ih he

end Steps

/-- The connection of a wire takes steps of the machine. -/
def WireSteps (kind : Event → Prop) (w w' : Wire τ) : Prop :=
  Steps kind w.connection w'.connection

instance {kind : Event → Prop} : IsPreorder (Wire τ) (WireSteps kind) where
  refl w := Steps.refl w.connection
  trans _ _ _ huv hvw := Steps.trans huv hvw

theorem steps_onWire {α : Type} {kind : Event → Prop} {x : Exec Exn AmqpConnection α}
    (hx : ∀ c, Steps kind c (x c).2) :
    Exec.Along (WireSteps kind) (onWire x : Serving τ α) := fun w => hx w.connection

section Methods

variable {react : κ → Serving τ Unit}
  (hreact : ∀ event, Exec.Along (WireSteps Event.OfServing) (react event))
include hreact

theorem steps_callback (first : Callback κ) :
    Exec.Along (WireSteps Event.OfServing) (callback react first) := by
  cases first with
  | onData out => exact steps_onWire fun c => Steps.event c (e := .onData out) trivial
  | onReady => exact steps_onWire fun c => Steps.event c (e := .onReady) trivial
  | onError message => exact steps_onWire fun c => Steps.event c (e := .onError message) trivial
  | onClosed => exact steps_onWire fun c => Steps.event c (e := .onClosed) trivial
  | channel event => exact hreact event

theorem steps_callbacks (calls : List (Callback κ)) :
    Exec.Along (WireSteps Event.OfServing) (callbacks react calls) := by
  induction calls with
  | nil => exact Exec.along_pure _
  | cons first rest ih => exact Exec.along_bind (steps_callback hreact first) fun _ => ih

theorem steps_pumpOnce (turn : Turn κ) :
    Exec.Along (WireSteps Event.OfServing) (pumpOnce react turn) := by
  cases turn with
  | expired drained =>
      apply Exec.along_bind
      · exact steps_onWire fun c => Steps.event c (e := .readExpired drained) trivial
      · exact fun _ => Exec.along_pure _
  | completed result parse =>
      apply Exec.along_bind
      · exact fun w => Steps.event w.connection (e := .readCompleted result) trivial
      intro arrived
      cases arrived with
      | false => exact Exec.along_pure _
      | true =>
          apply Exec.along_bind (steps_callbacks hreact parse.callbacks)
          intro _
          apply Exec.along_bind
          · exact steps_onWire fun c => Steps.event c (e := .parsed parse.consumed) trivial
          · exact fun _ => Exec.along_pure _

theorem steps_pumpUntil (predicate : Wire τ → Bool) (turns : List (Turn κ)) :
    Exec.Along (WireSteps Event.OfServing) (pumpUntil react predicate turns) := by
  induction turns with
  | nil => exact Exec.along_get_bind fun _ => Exec.along_pure _
  | cons turn rest ih =>
      apply Exec.along_get_bind
      intro w
      split
      · exact Exec.along_pure _
      apply Exec.along_bind (steps_pumpOnce hreact turn)
      intro served
      cases served with
      | true => exact ih
      | false => exact Exec.along_get_bind fun _ => Exec.along_pure _

theorem steps_close (out : Outbound) (turns : List (Turn κ)) :
    Exec.Along (WireSteps Event.OfServing) (close react out turns) := by
  have hreturn : Exec.Along (WireSteps Event.OfServing) (onWire closeReturned : Serving τ Unit) :=
    steps_onWire fun c => Steps.event c (e := .closeReturned) trivial
  apply Exec.along_get_bind
  intro w
  split
  · apply Exec.along_bind
    · exact steps_onWire fun c => Steps.event c (e := .closeLibrary out) trivial
    intro _
    exact Exec.along_bind (steps_pumpUntil hreact _ turns) fun _ => hreturn
  · exact hreturn

theorem steps_connect (env : ConnectEnv κ) :
    Exec.Along (WireSteps fun _ => True) (connect react env) := by
  apply Exec.along_bind
  · exact steps_onWire fun c => Steps.event c (e := .reachPeer env.reach) trivial
  intro _
  apply Exec.along_bind
  · exact steps_onWire fun c => Steps.event c (e := .constructLibrary env.header) trivial
  intro _
  refine Exec.along_bind (fun w => ?_) fun settled => ?_
  · exact (steps_pumpUntil hreact handshakeOver env.handshake w).mono fun _ _ => trivial
  apply Exec.along_get_bind
  intro w
  dsimp only
  repeat' split
  all_goals first | exact Exec.along_throw _ | exact Exec.along_pure _

end Methods

end AmqpConnection

end Motus.Amqp
