import Motus.Amqp.Shutdown
import Motus.InMemory.Shutdown

set_option autoImplicit false

/-!
# Shutdown on every backend

After `close` an in-memory transport is down until the next `connect`.  An AMQP
transport is down exactly when the end of its connection is known and no
reconnection attempt is left to its policy, and for as long as no call of
`setReconnectPolicy` allows one again: `pump` reconnects a transport whose owner has
closed it.
-/

namespace Motus.Backends

open Motus.Foundation Motus.Transport Motus.Amqp Motus.InMemory

/-- After `close` has returned, and up to the next `connect`. -/
theorem staysDown_iff_spent (i : Nat) (actions rest : List Action)
    (calls restCpp : List AmqpCppTransport.Call) (env : AmqpCppTransport.CloseEnv)
    (callsSimple restSimple : List SimpleAmqpTransport.Call) :
    (∀ t : InMemoryTransport,
      (System.machine.run actions).transports[i]? = some t → t.idle = true →
      (∀ a ∈ rest, a ≠ .connect i) →
        System.machine.AlwaysFrom (System.StaysDown i)
          (System.machine.step (System.machine.run actions) (.close i)) rest) ∧
    (let p := Process.machine.run calls
     p.running = true → (AmqpCppTransport.close env p.transport).1 = .ok () →
      (∀ call ∈ restCpp, call.connects = false) →
        (Process.machine.AlwaysFrom Process.StaysDown (Process.machine.step p (.close env))
            restCpp ↔
          p.transport.endKnown env = true ∧ p.transport.spent = true ∧
            Process.machine.GuardedFrom (fun p call => p.running = true → call.enables = false)
              (Process.machine.step p (.close env)) restCpp)) ∧
    (let t := SimpleAmqpTransport.machine.run callsSimple
     (∀ call ∈ restSimple, call.connects = false) →
        (SimpleAmqpTransport.machine.AlwaysFrom SimpleAmqpTransport.StaysDown
            (SimpleAmqpTransport.machine.step t .close) restSimple ↔
          t.spent = true ∧
            SimpleAmqpTransport.machine.GuardedFrom (fun _ call => call.enables = false)
              (SimpleAmqpTransport.machine.step t .close) restSimple)) := by
  refine ⟨?_, ?_, ?_⟩
  · intro t hlookup hidle hconnects
    have hoff := System.off_step_close hlookup hidle
    exact (Machine.AlwaysFrom.of_kind (I := System.Off i) (fun _ a ha h => h.step ha) hoff
      hconnects).mono fun _ h => h.staysDown
  · intro p hrunning hclose hconnects
    exact Process.staysDown_iff_of_close hrunning hclose restCpp hconnects
  · intro t hconnects
    exact SimpleAmqpTransport.staysDown_iff_of_close t restSimple hconnects

/-! ## Three runs -/

/-- The broker confirms the handshake. -/
def handshake : AmqpCppTransport.OpenEnv where
  connect := { handshake := [.completed (.data [1]) { callbacks := [.onReady] }] }

/-- The broker confirms the close. -/
def closeConfirmed : AmqpCppTransport.CloseEnv where
  turns := [.completed (.data [1]) { callbacks := [.onClosed] }]

theorem staysDown_iff_spent_closedRun :
    System.machine.AlwaysFrom (System.StaysDown 0)
        (System.machine.step (System.machine.run [.create, .connect 0]) (.close 0)) [.pump 0] ∧
      Process.machine.AlwaysFrom Process.StaysDown
        (Process.machine.step (Process.machine.run [.connect {} handshake])
          (.close closeConfirmed)) [.pump {}] ∧
      SimpleAmqpTransport.machine.AlwaysFrom SimpleAmqpTransport.StaysDown
        (SimpleAmqpTransport.machine.step
          (SimpleAmqpTransport.machine.run [.connect {} {}]) .close) [.pump {}] := by
  obtain ⟨hmemory, hcpp, hsimple⟩ := staysDown_iff_spent 0 [.create, .connect 0] [.pump 0]
    [.connect {} handshake] [.pump {}] closeConfirmed [.connect {} {}] [.pump {}]
  refine ⟨?_, ?_, ?_⟩
  · exact hmemory { connected := true } rfl rfl (by simp)
  · exact (hcpp (by decide) (by decide) (by simp [AmqpCppTransport.Call.connects])).mpr
      ⟨by decide, by decide, by decide⟩
  · refine (hsimple (by simp [SimpleAmqpTransport.Call.connects])).mpr ⟨by decide, ?_⟩
    exact ⟨rfl, trivial⟩

/-- A transport that may reconnect is closed by its owner, and `pump` connects it
again: one attempt, and it is ready. -/
theorem closedRun_reconnects :
    let p := Process.machine.run [.setReconnectPolicy { enabled := true }, .connect {} handshake,
      .close closeConfirmed]
    let t := SimpleAmqpTransport.machine.run [.setReconnectPolicy { enabled := true },
      .connect {} {}, .close]
    p.transport.isReady = false ∧
      (AmqpCppTransport.pump { reconnect := { opening := handshake } } p.transport).1 = .ok true ∧
      (AmqpCppTransport.pump { reconnect := { opening := handshake } } p.transport).2.isReady =
        true ∧
      ¬ p.StaysDown ∧ t.isReady = false ∧ (SimpleAmqpTransport.pump {} t).1 = .ok true ∧
      (SimpleAmqpTransport.pump {} t).2.isReady = true ∧ ¬ t.StaysDown := by
  intro p t
  have hpump : (AmqpCppTransport.pump { reconnect := { opening := handshake } } p.transport).1 =
      .ok true := by decide
  have hpump' : (SimpleAmqpTransport.pump {} t).1 = .ok true := by decide
  refine ⟨by decide, hpump, by decide, fun hdown => ?_, by decide, hpump', by decide,
    fun hdown => ?_⟩
  · have hfalse := (hdown (by decide)).pump { reconnect := { opening := handshake } }
    rw [hfalse] at hpump
    exact absurd hpump (by simp)
  · have hfalse := hdown.pump {}
    rw [hfalse] at hpump'
    exact absurd hpump' (by simp)

end Motus.Backends
