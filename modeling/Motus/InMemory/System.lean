import Motus.Foundation.Machine
import Motus.InMemory.Transport

set_option autoImplicit false

/-!
# Any number of transports over one broker

The system is the broker and the transports created so far.  Its actions are the
calls their owners make, cut where other threads can come in between: `pump` at
the call of the handler, `ensureTopic` between its two broker calls.  An action
its transport cannot take (a transport that does not exist or was destroyed, a
`pump` while the handler of an earlier one is running) changes nothing.

While a handler runs, the thread that drives its transport may declare, send,
purge and settle through it; re-entering `pump`, `close` or the destructor of the
very transport that is calling the handler is outside the model.
-/

namespace Motus.InMemory

open Motus.Foundation Motus.Transport

/-- The broker and every transport that was created, in their order. -/
structure System where
  broker : Broker := {}
  transports : List InMemoryTransport := []

/-- A call on one of the transports, up to where another thread can come between. -/
inductive Action where
  /-- a new transport -/
  | create
  | connect (i : Nat)
  | close (i : Nat)
  | destroy (i : Nat)
  /-- `ensureTopic` up to the declaration of the forensic destination -/
  | ensureTopic (i : Nat) (topic : Topic) (options : TopicOptions)
  /-- the rest of that `ensureTopic` -/
  | ensureTopicSource (i : Nat)
  | send (i : Nat) (topic : Topic) (payload : Bytes) (options : SendOptions)
  | subscribe (i : Nat) (topic : Topic) (callable : Bool)
  | purgeTopic (i : Nat) (topic : Topic)
  /-- one turn of the loop in `pump`, up to the call of the handler -/
  | pump (i : Nat)
  /-- the handler leaves, and with it `pump` -/
  | handlerReturns (i : Nat) (outcome : HandlerOutcome)
  | settle (i : Nat) (tag : Nat) (disposition : Disposition)
  deriving DecidableEq, Repr

/-- The transport an action is a call on. -/
def Action.transport : Action → Option Nat
  | .create => none
  | .connect i | .close i | .destroy i | .ensureTopic i _ _ | .ensureTopicSource i
  | .send i _ _ _ | .subscribe i _ _ | .purgeTopic i _ | .pump i | .handlerReturns i _
  | .settle i _ _ => some i

namespace InMemoryTransport

/-- The owner's thread can make a call: the transport exists and is not inside
`ensureTopic`. -/
def callable (t : InMemoryTransport) : Bool := !t.destroyed && t.declaring.isNone

/-- The owner's thread is not inside a handler either. -/
def idle (t : InMemoryTransport) : Bool := t.callable && t.handling.isNone

/-- `ensureTopic` up to the point between its two broker calls. -/
def beginEnsureTopic (topic : Topic) (options : TopicOptions) : Method Unit := do
  ensureTopicForensic topic options
  let s ← get
  setSelf { s.self with declaring := some (topic, options) }

/-- `ensureTopic` from that point on. -/
def endEnsureTopic : Method Unit := do
  let s ← get
  match s.self.declaring with
  | none => pure ()
  | some (topic, options) => do
      setSelf { s.self with declaring := none }
      ensureTopicSource topic options

/-- `pump` from the moment its handler leaves. -/
def endPump (outcome : HandlerOutcome) : Method Unit := do
  let s ← get
  match s.self.handling with
  | none => pure ()
  | some message => do
      let _ ← handlerReturns message outcome
      pure ()

end InMemoryTransport

namespace System

open InMemoryTransport

/-- Run a method of transport `i`, if `may` allows it there. -/
def call {α : Type} (s : System) (i : Nat) (may : InMemoryTransport → Bool) (x : Method α) :
    System :=
  match s.transports[i]? with
  | none => s
  | some t =>
      if may t then
        let site := (x ⟨s.broker, t, i⟩).2
        ⟨site.broker, s.transports.set i site.self⟩
      else s

/-- What an action does to the system. -/
def step (s : System) : Action → System
  | .create => { s with transports := s.transports ++ [{}] }
  | .connect i => s.call i callable InMemoryTransport.connect
  | .close i => s.call i idle InMemoryTransport.close
  | .destroy i => s.call i idle InMemoryTransport.destroy
  | .ensureTopic i topic options => s.call i callable (beginEnsureTopic topic options)
  | .ensureTopicSource i => s.call i (fun t => !t.destroyed) endEnsureTopic
  | .send i topic payload options =>
      s.call i callable (InMemoryTransport.send topic payload options)
  | .subscribe i topic handler => s.call i callable (InMemoryTransport.subscribe topic handler)
  | .purgeTopic i topic => s.call i callable (InMemoryTransport.purgeTopic topic)
  | .pump i => s.call i idle pumpTurn
  | .handlerReturns i outcome => s.call i callable (endPump outcome)
  | .settle i tag disposition => s.call i callable (InMemoryTransport.settle tag disposition)

/-- The system as a machine: no topic is declared and no transport exists. -/
def machine : Machine System Action where
  init := {}
  step := step

end System

end Motus.InMemory
