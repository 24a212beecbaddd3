import Motus.Amqp.Events

set_option autoImplicit false

/-!
# `ready()` and `closed()`

`_ready` is latched by `onReady`, `_closed` by whatever notices the end of the
connection.  Three ends pass without notice: a protocol error, a `close` that
gives up waiting for the broker's answer, and a read that failed between the
deadline of a `pumpOnce` and the cancellation.

`HasEnded` is read off the journal, which records every end, so that the flags are
compared with what has happened and not with each other.  Each event keeps the flags
truthful exactly if its end, when it is one, is noticed.
-/

namespace Motus.Amqp

open Motus.Foundation Motus.Transport

namespace AmqpConnection

/-- The connection has ended, in whatever way. -/
def HasEnded (c : AmqpConnection) : Prop := ∃ h ∈ c.journal, h ≠ Happening.handshake

instance (c : AmqpConnection) : Decidable c.HasEnded :=
  inferInstanceAs (Decidable (∃ h ∈ c.journal, h ≠ Happening.handshake))

/-- `ready()` and `closed()` tell what has happened to the connection. -/
def Truthful (c : AmqpConnection) : Prop :=
  (c.isReady = true ↔ Happening.handshake ∈ c.journal ∧ ¬ c.HasEnded) ∧
    (c.HasEnded → c.isClosed = true)

instance (c : AmqpConnection) : Decidable c.Truthful :=
  inferInstanceAs (Decidable ((c.isReady = true ↔ _ ∧ ¬ c.HasEnded) ∧ (c.HasEnded → _)))

/-- An event that ends the connection is one that sets `_closed`, or comes after
another has. -/
def EndNoticed (c : AmqpConnection) : Event → Prop
  | .onError _ | .closeReturned => c.closed = true
  | .readExpired drained =>
      match c.socket.read drained with
      | .data _ => True
      | .failed ec => ec.kind = .operationAborted ∨ c.closed = true
  | _ => True

instance (c : AmqpConnection) (e : Event) : Decidable (EndNoticed c e) := by
  unfold EndNoticed
  split
  · infer_instance
  · infer_instance
  · split <;> infer_instance
  · infer_instance

/-! ## What one event does to the flags -/

/-- The flags and the journal over one event, and what it takes for an end to be
noticed. -/
inductive FlagStep (c c' : AmqpConnection) : Prop → Prop where
  | quiet : c'.journal = c.journal → c'.ready = c.ready → c'.closed = c.closed →
      FlagStep c c' True
  | handshake : c'.journal = .handshake :: c.journal → c'.ready = true → c'.closed = c.closed →
      FlagStep c c' True
  | noticed (h : Happening) : h ≠ .handshake → c'.journal = h :: c.journal →
      c'.ready = c.ready → c'.closed = true → FlagStep c c' True
  | unnoticed (h : Happening) : h ≠ .handshake → c'.journal = h :: c.journal →
      c'.ready = c.ready → c'.closed = c.closed → FlagStep c c' (c.closed = true)

/-- A write is quiet or a noticed failure, also where it is part of another event. -/
theorem flagStep_of_onData {c c' d : AmqpConnection} (out : Outbound)
    (hd : d.journal = c.journal ∧ d.ready = c.ready ∧ d.closed = c.closed)
    (hc' : c'.journal = (onData out d).2.journal ∧ c'.ready = (onData out d).2.ready ∧
      c'.closed = (onData out d).2.closed) : FlagStep c c' True := by
  rw [onData_apply] at hc'
  obtain ⟨hjournal, hready, hclosed⟩ := hd
  cases hwrite : d.socket.write out with
  | none =>
      rw [hwrite] at hc'
      exact .quiet (hc'.1.trans hjournal) (hc'.2.1.trans hready) (hc'.2.2.trans hclosed)
  | some ec =>
      rw [hwrite] at hc'
      have hnoted : c'.journal = .writeFailed :: c.journal := by
        rw [hc'.1, ← hjournal]
        rfl
      exact .noticed .writeFailed (by decide) hnoted (hc'.2.1.trans hready) hc'.2.2

theorem flagStep_readExpired (drained : ReadResult) (c : AmqpConnection) :
    FlagStep c (readExpired drained c).2 (EndNoticed c (.readExpired drained)) := by
  simp only [readExpired, Exec.modify_apply, EndNoticed]
  cases c.socket.read drained with
  | data bytes => exact .quiet rfl rfl rfl
  | failed ec =>
      dsimp only
      by_cases haborted : ec.kind = .operationAborted
      · rw [if_pos haborted]
        simp only [haborted, true_or]
        exact .quiet rfl rfl rfl
      · rw [if_neg haborted]
        simp only [haborted, false_or]
        exact .unnoticed .readFailed (by decide) rfl rfl rfl

theorem flagStep_step (c : AmqpConnection) (e : Event) : FlagStep c (e.step c) (EndNoticed c e) := by
  cases e with
  | reachPeer reach => cases reach <;> exact .quiet rfl rfl rfl
  | onData out => exact flagStep_of_onData out ⟨rfl, rfl, rfl⟩ ⟨rfl, rfl, rfl⟩
  | onReady => exact .handshake rfl rfl rfl
  | onError message => exact .unnoticed .protocolError (by decide) rfl rfl rfl
  | onClosed => exact .noticed .closedByBroker (by decide) rfl rfl rfl
  | parsed consumed => exact .quiet rfl rfl rfl
  | readExpired drained => exact flagStep_readExpired drained c
  | closeReturned => exact .unnoticed .closeReturned (by decide) rfl rfl rfl
  | readCompleted result =>
      simp only [Event.step, readCompleted_apply]
      cases c.socket.read result with
      | data bytes => exact .quiet rfl rfl rfl
      | failed ec => exact .noticed .readFailed (by decide) rfl rfl rfl
  | constructLibrary header =>
      apply flagStep_of_onData header ⟨rfl, rfl, rfl⟩
      simp only [Event.step, constructLibrary_apply]
      rcases AmqpConnection.onData header c with ⟨r, c'⟩
      cases r <;> exact ⟨rfl, rfl, rfl⟩
  | closeLibrary out =>
      simp only [Event.step, closeLibrary_apply]
      split
      · exact flagStep_of_onData (d := { c with library := .unusable }) out ⟨rfl, rfl, rfl⟩
          ⟨rfl, rfl, rfl⟩
      · exact .quiet rfl rfl rfl

/-! ## The flags over a run -/

/-- What the flags say is always true; that they say all there is, is not. -/
structure Recorded (c : AmqpConnection) : Prop where
  ready : c.ready = true ↔ Happening.handshake ∈ c.journal
  closed : c.closed = true → c.HasEnded

theorem Recorded.truthful_iff {c : AmqpConnection} (h : Recorded c) :
    c.Truthful ↔ (c.HasEnded → c.closed = true) := by
  constructor
  · exact fun htruthful => htruthful.2
  · intro hnoticed
    refine ⟨?_, hnoticed⟩
    have hended : c.closed = true ↔ c.HasEnded := ⟨h.closed, hnoticed⟩
    simp only [isReady, Bool.and_eq_true, Bool.not_eq_true', h.ready, ← hended,
      Bool.not_eq_true]

theorem hasEnded_cons {c c' : AmqpConnection} {h : Happening}
    (hjournal : c'.journal = h :: c.journal) : c'.HasEnded ↔ h ≠ .handshake ∨ c.HasEnded := by
  unfold HasEnded
  rw [hjournal]
  simp

theorem hasEnded_congr {c c' : AmqpConnection} (hjournal : c'.journal = c.journal) :
    c'.HasEnded ↔ c.HasEnded := by
  unfold HasEnded
  rw [hjournal]

theorem Recorded.of_flagStep {c c' : AmqpConnection} {noticed : Prop} (h : Recorded c)
    (hstep : FlagStep c c' noticed) : Recorded c' := by
  cases hstep with
  | quiet hjournal hready hclosed =>
      refine ⟨?_, fun hc => (hasEnded_congr hjournal).mpr (h.closed (hclosed ▸ hc))⟩
      rw [hjournal, hready]
      exact h.ready
  | handshake hjournal hready hclosed =>
      refine ⟨?_, fun hc => (hasEnded_cons hjournal).mpr (Or.inr (h.closed (hclosed ▸ hc)))⟩
      rw [hjournal, hready]
      simp
  | noticed happened hne hjournal hready hclosed =>
      refine ⟨?_, fun _ => (hasEnded_cons hjournal).mpr (Or.inl hne)⟩
      rw [hjournal, hready, h.ready, List.mem_cons]
      simp [hne.symm]
  | unnoticed happened hne hjournal hready hclosed =>
      refine ⟨?_, fun _ => (hasEnded_cons hjournal).mpr (Or.inl hne)⟩
      rw [hjournal, hready, h.ready, List.mem_cons]
      simp [hne.symm]

/-- An event keeps the flags truthful exactly when its end, if it is one, is noticed. -/
theorem Recorded.truthful_step_iff {c c' : AmqpConnection} {noticed : Prop} (h : Recorded c)
    (htruthful : c.Truthful) (hstep : FlagStep c c' noticed) : c'.Truthful ↔ noticed := by
  have hbefore : c.HasEnded → c.closed = true := h.truthful_iff.mp htruthful
  rw [(h.of_flagStep hstep).truthful_iff]
  cases hstep with
  | quiet hjournal hready hclosed =>
      rw [hasEnded_congr hjournal, hclosed]
      exact ⟨fun _ => trivial, fun _ => hbefore⟩
  | handshake hjournal hready hclosed =>
      rw [hasEnded_cons hjournal, hclosed]
      exact ⟨fun _ => trivial, fun _ hended => hbefore (hended.resolve_left fun hne => hne rfl)⟩
  | noticed happened hne hjournal hready hclosed => exact ⟨fun _ => trivial, fun _ _ => hclosed⟩
  | unnoticed happened hne hjournal hready hclosed =>
      rw [hasEnded_cons hjournal, hclosed]
      exact ⟨fun hafter => hafter (Or.inl hne), fun hc _ => hc⟩

theorem recorded_ofEndpoint (endpoint : Endpoint) : Recorded (ofEndpoint endpoint) where
  ready := by simp [ofEndpoint]
  closed := fun h => absurd h (by simp [ofEndpoint])

theorem recorded_run (endpoint : Endpoint) (events : List Event) :
    Recorded ((machine endpoint).run events) := by
  have halways : (machine endpoint).Always Recorded events :=
    .of_step events (fun c e h => h.of_flagStep (flagStep_step c e)) (recorded_ofEndpoint endpoint)
  exact halways.last

/-- A `close` whose request the broker never answers: the deadline passes, the
waiting read is cancelled, and `close` returns. -/
def unansweredClose : List Event :=
  [.reachPeer .connected, .constructLibrary {}, .readCompleted (.data [1]), .onReady, .parsed 1,
    .closeLibrary {}, .readExpired (.failed ⟨.operationAborted, ""⟩), .closeReturned]

end AmqpConnection

end Motus.Amqp
