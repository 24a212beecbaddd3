import Motus.InMemory.Effect

set_option autoImplicit false

/-!
# A closed in-memory transport

Every method but `connect` leaves a disconnected transport disconnected, and a
disconnected transport is down: it is not ready and its `pump` does nothing.

It stays down until its owner connects it again.
-/

namespace Motus.InMemory

open Motus.Foundation Motus.Transport

namespace Site

/-- The transport is not ready, and `pump` reports so and does nothing. -/
structure StaysDown (s : Site) : Prop where
  ready : InMemoryTransport.ready s = (.ok false, s)
  pump : InMemoryTransport.pumpTurn s = (.ok (.done false), s)

theorem staysDown_of_disconnected {s : Site} (h : s.self.connected = false) : StaysDown s := by
  refine ⟨?_, ?_⟩
  · unfold InMemoryTransport.ready
    rw [Exec.get_bind, h]
    rfl
  · unfold InMemoryTransport.pumpTurn
    rw [Exec.get_bind, if_pos h]
    rfl

end Site

namespace InMemoryTransport

section Off

variable {t : InMemoryTransport} (hoff : t.connected = false) (b : Broker) (i : Nat)
include hoff

theorem off_ensureTopic (topic : Topic) (options : TopicOptions) :
    (beginEnsureTopic topic options ⟨b, t, i⟩).2.self.connected = false := by
  have hforensic : ensureTopicForensic topic options ⟨b, t, i⟩ =
      (.error (.logicError "ensureTopic() called before connect()"), ⟨b, t, i⟩) := by
    unfold ensureTopicForensic
    rw [Exec.get_bind, if_pos hoff]
    rfl
  unfold beginEnsureTopic
  rw [Exec.bind_error hforensic]
  exact hoff

theorem off_endEnsureTopic : (endEnsureTopic ⟨b, t, i⟩).2.self.connected = false := by
  unfold endEnsureTopic
  rw [Exec.get_bind]
  cases t.declaring with
  | none => exact hoff
  | some declaration => exact hoff

theorem off_send (topic : Topic) (payload : Bytes) (options : SendOptions) :
    (InMemoryTransport.send topic payload options ⟨b, t, i⟩).2.self.connected = false := by
  unfold InMemoryTransport.send
  rw [Exec.get_bind, if_pos hoff]
  exact hoff

theorem off_subscribe (topic : Topic) (handler : Bool) :
    (InMemoryTransport.subscribe topic handler ⟨b, t, i⟩).2.self.connected = false := by
  unfold InMemoryTransport.subscribe
  rw [Exec.get_bind, if_pos hoff]
  exact hoff

theorem off_purgeTopic (topic : Topic) :
    (InMemoryTransport.purgeTopic topic ⟨b, t, i⟩).2.self.connected = false := by
  unfold InMemoryTransport.purgeTopic
  rw [Exec.get_bind, if_pos hoff]
  exact hoff

theorem off_settle (tag : Nat) (disposition : Disposition) :
    (InMemoryTransport.settle tag disposition ⟨b, t, i⟩).2.self.connected = false := by
  unfold InMemoryTransport.settle
  rw [Exec.get_bind, if_pos hoff]
  exact hoff

theorem off_endPump (outcome : HandlerOutcome) :
    (endPump outcome ⟨b, t, i⟩).2.self.connected = false := by
  cases hhandling : t.handling with
  | none =>
      have hrun : (endPump outcome ⟨b, t, i⟩).2 = ⟨b, t, i⟩ := by simp [endPump, hhandling]
      rw [hrun]
      exact hoff
  | some message =>
      cases outcome with
      | threw what =>
          simp only [endPump, Exec.get_bind, hhandling, handlerReturns, setSelf]
          exact hoff
      | returned disposition =>
          by_cases hdeferred : disposition = .deferred
          · subst hdeferred
            simp only [endPump, Exec.get_bind, hhandling, handlerReturns, setSelf]
            exact hoff
          · obtain ⟨stats, hrun⟩ := endPump_final i b t hdeferred hhandling
            rw [hrun]
            exact hoff

end Off

/-- However it was before, a transport is disconnected by `close`. -/
theorem off_close (b : Broker) (t : InMemoryTransport) (i : Nat) :
    (InMemoryTransport.close ⟨b, t, i⟩).2.self.connected = false := by
  obtain ⟨outstanding, -, hreturn⟩ := returnOutstanding_apply i b t
  unfold InMemoryTransport.close
  rw [Exec.bind_ok hreturn]
  rfl

theorem off_destroy (b : Broker) (t : InMemoryTransport) (i : Nat) :
    (destroy ⟨b, t, i⟩).2.self.connected = false := by
  obtain ⟨outstanding, -, hreturn⟩ := returnOutstanding_apply i b t
  unfold destroy
  have hcaught : (tryCatch returnOutstanding fun _ => pure ()) ⟨b, t, i⟩ =
      (.ok (), ⟨b.putBackAll i t.topic t.unresolved, { t with outstanding := outstanding }, i⟩) := by
    rw [Exec.tryCatch_apply, hreturn]
  rw [Exec.bind_ok hcaught]
  rfl

end InMemoryTransport

namespace System

open InMemoryTransport

/-- Transport `i` does not exist or is disconnected. -/
def Off (i : Nat) (s : System) : Prop :=
  ∀ t, s.transports[i]? = some t → t.connected = false

theorem Off.call {α : Type} {s : System} {i j : Nat} {may : InMemoryTransport → Bool}
    {x : Method α} (h : s.Off i) (hx : j = i → ∀ t, t.connected = false →
      (x ⟨s.broker, t, j⟩).2.self.connected = false) : (s.call j may x).Off i := by
  unfold System.call
  cases hlookup : s.transports[j]? with
  | none => exact h
  | some t =>
      dsimp only
      split
      · intro u hu
        rw [List.getElem?_set] at hu
        split at hu
        · rename_i heq
          subst heq
          split at hu
          · rw [← Option.some.inj hu]
            exact hx rfl t (h t hlookup)
          · exact absurd hu (by simp)
        · exact h u hu
      · exact h

/-- No action of any transport but a `connect` of its own connects it. -/
theorem Off.step {s : System} {i : Nat} {a : Action} (h : s.Off i) (ha : a ≠ .connect i) :
    (s.step a).Off i := by
  cases a with
  | create =>
      intro t ht
      by_cases hlt : i < s.transports.length
      · rw [System.step, List.getElem?_append_left hlt] at ht
        exact h t ht
      · rw [System.step, List.getElem?_append_right (Nat.le_of_not_lt hlt)] at ht
        have hmem := List.mem_of_getElem? ht
        rw [List.mem_singleton.mp hmem]
  | connect j => exact h.call fun heq => absurd (by rw [heq]) ha
  | close j => exact h.call fun _ t _ => off_close s.broker t j
  | destroy j => exact h.call fun _ t _ => off_destroy s.broker t j
  | ensureTopic j topic options => exact h.call fun _ _ ht => off_ensureTopic ht s.broker j topic options
  | ensureTopicSource j => exact h.call fun _ _ ht => off_endEnsureTopic ht s.broker j
  | send j topic payload options =>
      exact h.call fun _ _ ht => off_send ht s.broker j topic payload options
  | subscribe j topic handler => exact h.call fun _ _ ht => off_subscribe ht s.broker j topic handler
  | purgeTopic j topic => exact h.call fun _ _ ht => off_purgeTopic ht s.broker j topic
  | pump j =>
      refine h.call fun _ t ht => ?_
      have hdown := (Site.staysDown_of_disconnected (s := ⟨s.broker, t, j⟩) ht).pump
      rw [hdown]
      exact ht
  | handlerReturns j outcome => exact h.call fun _ _ ht => off_endPump ht s.broker j outcome
  | settle j tag disposition => exact h.call fun _ _ ht => off_settle ht s.broker j tag disposition

/-- A `close` that is carried out disconnects its transport. -/
theorem off_step_close {s : System} {i : Nat} {t : InMemoryTransport}
    (hlookup : s.transports[i]? = some t) (hidle : t.idle = true) : (s.step (.close i)).Off i := by
  intro u hu
  rw [System.step, call_of_may _ hlookup hidle] at hu
  obtain ⟨hlt, -⟩ := List.getElem?_eq_some_iff.mp hlookup
  rw [List.getElem?_set_self hlt] at hu
  rw [← Option.some.inj hu]
  exact off_close s.broker t i

/-- The site of transport `i`, if there is one, stays down. -/
def StaysDown (i : Nat) (s : System) : Prop :=
  ∀ t, s.transports[i]? = some t → Site.StaysDown ⟨s.broker, t, i⟩

theorem Off.staysDown {i : Nat} {s : System} (h : s.Off i) : s.StaysDown i :=
  fun t ht => Site.staysDown_of_disconnected (h t ht)

end System

end Motus.InMemory
