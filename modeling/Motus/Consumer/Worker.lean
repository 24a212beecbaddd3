import Motus.Consumer.Dispatch
import Motus.InMemory.Calls

set_option autoImplicit false

/-!
# Consumers at work (`src/Consumer.cpp` over `src/transport/InMemoryTransport.cpp`)

Any number of in-memory transports, some of them each driven by a Consumer, and the
threads that push settlements.  A Consumer is cut where its thread can be overtaken:
`start` between the two broker calls of `ensureTopic`, `poll` at each `tryPop`, at
each `settle`, at each turn of the loop in `pump` and at the call of the handler.  The
field `phase` says where its thread stands.

The owner of a transport may use it outside `poll` and inside a handler, except that
only its Consumer subscribes, pumps and settles and that a handler does not close it.
The transport of a Consumer outlives it.

`Ledger` and `Workers.log` are auxiliary: nothing that is executed reads them.
-/

namespace Motus.Consumer

open Motus.Foundation Motus.Transport Motus.InMemory

/-- A `SettlementQueue`: what is pending, oldest first. -/
structure SettlementQueue where
  pending : List (Nat × Disposition) := []
  deriving DecidableEq, Repr

namespace SettlementQueue

/-- `push`, from any thread. -/
def push (queue : SettlementQueue) (handle : Nat) (disposition : Disposition) :
    SettlementQueue :=
  ⟨queue.pending ++ [(handle, disposition)]⟩

/-- The front of the queue and the rest, unless nothing is pending. -/
def tryPop (queue : SettlementQueue) : Option ((Nat × Disposition) × SettlementQueue) :=
  match queue.pending with
  | [] => none
  | front :: rest => some (front, ⟨rest⟩)

end SettlementQueue

/-- Where the thread of a Consumer stands. -/
inductive Phase where
  /-- outside `start` and `poll` -/
  | idle
  /-- in `start`, between the two halves of `ensureTopic` -/
  | starting
  /-- in `poll`, about to call `tryPop` -/
  | draining
  /-- in `poll`, about to call `settle` with what was popped -/
  | settling (handle : Nat) (disposition : Disposition)
  /-- in `poll`, before a turn of the loop in `pump` -/
  | pumping
  /-- in `poll`, inside the handler -/
  | handling
  deriving DecidableEq, Repr

/-- Auxiliary: a settlement that was pushed, and which delivery its transport had
received last. -/
structure Push where
  handle : Nat
  disposition : Disposition
  delivery : Nat
  deriving DecidableEq, Repr

/-- Auxiliary: a settlement that was handed to `settle`, and how that ended. -/
structure Handed where
  handle : Nat
  disposition : Disposition
  result : Except Exn Unit

/-- Auxiliary: which delivery was resolved, and the disposition that was performed. -/
structure Resolution where
  delivery : Nat
  performed : Option Disposition
  deriving DecidableEq, Repr

/-- Auxiliary: what an observer of a Consumer and its transport writes down. -/
structure Ledger where
  pushed : List Push := []
  handed : List Handed := []
  resolved : List Resolution := []
  /-- the deliveries that `close` returned -/
  returned : Nat := 0

end Motus.Consumer

namespace Motus

open Motus.Consumer

/-- A `Consumer`, less its transport and its handlers, which the environment runs. -/
structure Consumer where
  configured : Configured
  /-- Whether `_settlements` is set. -/
  attached : Bool := false
  settlements : SettlementQueue := {}
  acked : Nat := 0
  rejected : Nat := 0
  requeued : Nat := 0
  deferred : Nat := 0
  phase : Phase := .idle
  ledger : Ledger := {}

end Motus

namespace Motus.Consumer

open Motus.Foundation Motus.Transport Motus.InMemory

/-- The switch of the lambda in `start`. -/
def count (c : Consumer) : Disposition → Consumer
  | .ack => { c with acked := c.acked + 1 }
  | .requeue => { c with requeued := c.requeued + 1 }
  | .reject => { c with rejected := c.rejected + 1 }
  | .deferred => { c with deferred := c.deferred + 1 }

/-- The switch in `poll`, after a `settle` that returned. -/
def countSettled (c : Consumer) : Disposition → Consumer
  | .ack => { c with acked := c.acked + 1 }
  | .requeue => { c with requeued := c.requeued + 1 }
  | .reject => { c with rejected := c.rejected + 1 }
  | .deferred => c   -- never pushed

/-- Auxiliary: a settlement is handed to `settle`. -/
def handed (c : Consumer) (handle : Nat) (disposition : Disposition) (result : Except Exn Unit) :
    Consumer :=
  { c with ledger.handed := c.ledger.handed ++ [⟨handle, disposition, result⟩] }

/-- What was popped and not yet handed to `settle`. -/
def inFlight (c : Consumer) : List (Nat × Disposition) :=
  match c.phase with
  | .settling handle disposition => [(handle, disposition)]
  | _ => []

/-- Whether the owner of the transport can make this call while its Consumer stands where
it stands. -/
def leaves (c : Consumer) : Action → Bool
  | .connect _ | .ensureTopic .. | .ensureTopicSource _ | .send .. | .purgeTopic .. =>
      c.phase == .idle || c.phase == .handling
  | .close _ => c.phase == .idle
  | _ => false

/-- Auxiliary: what happened to the deliveries of all Consumers. -/
inductive Note where
  /-- a handler was called with a message of a topic -/
  | called (topic : Topic) (message : Held)
  /-- the lambda of `start` returned, after this ending of the handler if it was called -/
  | concluded (topic : Topic) (message : Held) (ending : Option HandlerEnd)
      (disposition : Disposition)
  deriving DecidableEq, Repr

/-- The transports, and the Consumers that some of them are driven by. -/
structure Workers where
  system : System := {}
  consumers : Nat → Option Consumer := fun _ => none
  log : List Note := []

/-- What happens in a process of several Consumers, cut where another thread can come
between. -/
inductive Work where
  /-- a call on a transport that is not made by a Consumer -/
  | call (a : Action)
  /-- a Consumer is constructed over transport `i`, which nobody has subscribed before -/
  | construct (i : Nat) (configured : Configured)
  | attachSettlementQueue (i : Nat)
  /-- some thread pushes a settlement for the Consumer of transport `i` -/
  | push (i : Nat) (handle : Nat) (disposition : Disposition)
  /-- `start` up to the declaration of the forensic destination -/
  | start (i : Nat) (topic : Topic) (options : TopicOptions) (allowAsymmetric : Bool)
  /-- the rest of that `start` -/
  | startSubscribe (i : Nat)
  /-- `poll` is entered -/
  | poll (i : Nat)
  | tryPop (i : Nat)
  | settle (i : Nat)
  /-- one turn of the loop in `pump`, up to the call of the handler -/
  | pump (i : Nat)
  /-- the slice is over before the next turn -/
  | sliceOver (i : Nat)
  /-- the handler leaves, if it was called, and with it the lambda, `pump` and `poll` -/
  | handlerEnds (i : Nat) (ending : HandlerEnd)
  deriving DecidableEq, Repr

/-- The transport whose Consumer the work is for. -/
def Work.transport : Work → Option Nat
  | .call a => a.transport
  | .construct i _ | .attachSettlementQueue i | .push i _ _ | .start i _ _ _
  | .startSubscribe i | .poll i | .tryPop i | .settle i | .pump i | .sliceOver i
  | .handlerEnds i _ => some i

namespace Workers

/-- Run a part of a Consumer whose thread is in this phase. -/
def byConsumer (w : Workers) (i : Nat) (phase : Consumer → InMemoryTransport → Bool)
    (f : Consumer → InMemoryTransport → Workers) : Workers :=
  match w.consumers i, w.system.transports[i]? with
  | some c, some t => if phase c t then f c t else w
  | _, _ => w

/-- Write the system and one Consumer. -/
def put (w : Workers) (s : System) (i : Nat) (c : Consumer) : Workers :=
  { w with system := s, consumers := Function.update w.consumers i (some c) }

/-- Auxiliary: notes at the end of the log. -/
def note (w : Workers) (notes : List Note) : Workers := { w with log := w.log ++ notes }

/-- Whether a call that no Consumer makes can be made. -/
def mayCall (w : Workers) (a : Action) : Bool :=
  match a.transport.bind w.consumers with
  | none => true
  | some c => c.leaves a

/-- Auxiliary: the deliveries that a `close` is about to return. -/
def noteReturned (w : Workers) : Action → Workers
  | .close i => w.byConsumer i (fun _ t => t.idle) fun c t =>
      w.put w.system i { c with ledger.returned := c.ledger.returned + t.unresolved.length }
  | _ => w

/-- The transport has not delivered anything and is not subscribed. -/
def unused (t : InMemoryTransport) : Bool :=
  !t.subscribed && t.stats.tally == (0, 0, 0, 0)

/-- The first half of `start`. -/
def start (w : Workers) (i : Nat) (topic : Topic) (options : TopicOptions)
    (allowAsymmetric : Bool) (c : Consumer) (t : InMemoryTransport) : Workers :=
  match checkTopicOptions inMemoryCapabilities options allowAsymmetric with
  | .error _ => w
  | .ok _ =>
      let s := w.system.step (.ensureTopic i topic options)
      match (InMemoryTransport.beginEnsureTopic topic options ⟨w.system.broker, t, i⟩).1 with
      | .error _ => w.put s i c
      | .ok _ => w.put s i { c with phase := .starting }

/-- The second half; `subscribe` touches nothing but the transport. -/
def startSubscribe (w : Workers) (i : Nat) (c : Consumer) (t : InMemoryTransport) : Workers :=
  let s := w.system.step (.ensureTopicSource i)
  match (InMemoryTransport.endEnsureTopic ⟨w.system.broker, t, i⟩).1, t.declaring with
  | .ok _, some (topic, _) => w.put (s.step (.subscribe i topic true)) i { c with phase := .idle }
  | _, _ => w.put s i { c with phase := .idle }

/-- One turn of the loop in `poll` up to the call of `settle`. -/
def tryPop (w : Workers) (i : Nat) (c : Consumer) : Workers :=
  match c.settlements.tryPop with
  | none => w.put w.system i { c with phase := .pumping }
  | some ((handle, disposition), rest) =>
      w.put w.system i { c with settlements := rest, phase := .settling handle disposition }

/-- The rest of that turn. -/
def settle (w : Workers) (i : Nat) (c : Consumer) (t : InMemoryTransport) : Workers :=
  match c.phase with
  | .settling handle disposition =>
      let s := w.system.step (.settle i handle disposition)
      let result := (InMemoryTransport.settle handle disposition ⟨w.system.broker, t, i⟩).1
      let c := c.handed handle disposition result
      match result with
      | .ok _ => w.put s i { c.countSettled disposition with phase := .draining }
      | .error _ => w.put s i { c with phase := .idle }
  | _ => w

/-- `pump` has found a message or not, and calls the lambda of `start` with it. -/
def pump (w : Workers) (i : Nat) (c : Consumer) (t : InMemoryTransport) : Workers :=
  let s := w.system.step (.pump i)
  match (InMemoryTransport.pumpTurn ⟨w.system.broker, t, i⟩).1 with
  | .ok .slept => w.put s i c
  | .ok (.calling delivery) =>
      let w := w.put s i { c with phase := .handling }
      match decode delivery.body, s.running i with
      | .ok _, some message => w.note [.called t.topic message]
      | _, _ => w
  | _ => w.put s i { c with phase := .idle }

/-- The lambda ends, and `pump` carries out what it returns. -/
def handlerEnds (w : Workers) (i : Nat) (ending : HandlerEnd) (c : Consumer)
    (t : InMemoryTransport) : Workers :=
  match t.handling with
  | none => w
  | some message =>
      let c : Consumer := { c with phase := .idle }
      match decision inMemoryCapabilities (c.configured.handlers ending)
          ⟨message.body, message.redelivered, message.sequence⟩ with
      | .error what => w.put (w.system.step (.handlerReturns i (.threw what))) i c
      | .ok disposition =>
          let called :=
            match decode message.body with
            | .ok _ => some ending
            | .error _ => none
          (w.put (w.system.step (.handlerReturns i (.returned disposition))) i
            (c.count disposition)).note [.concluded t.topic message called disposition]

/-- What one piece of work does. -/
def act (w : Workers) : Work → Workers
  | .call a =>
      if w.mayCall a then { w.noteReturned a with system := w.system.step a } else w
  | .construct i configured =>
      match w.consumers i, w.system.transports[i]?,
        checkHandlers inMemoryCapabilities configured with
      | none, some t, .ok _ =>
          if unused t then w.put w.system i { configured := configured } else w
      | _, _, _ => w
  | .attachSettlementQueue i => w.byConsumer i (fun c _ => c.phase == .idle) fun c _ =>
      w.put w.system i { c with attached := true }
  | .push i handle disposition => w.byConsumer i (fun _ _ => true) fun c t =>
      w.put w.system i { c with
        settlements := c.settlements.push handle disposition
        ledger.pushed := c.ledger.pushed ++ [⟨handle, disposition, t.stats.received⟩] }
  | .start i topic options allowAsymmetric =>
      w.byConsumer i (fun c t => c.phase == .idle && t.idle)
        (w.start i topic options allowAsymmetric)
  | .startSubscribe i =>
      w.byConsumer i (fun c t => c.phase == .starting && !t.destroyed) (w.startSubscribe i)
  | .poll i => w.byConsumer i (fun c t => c.phase == .idle && t.idle) fun c _ =>
      w.put w.system i { c with phase := if c.attached then .draining else .pumping }
  | .tryPop i => w.byConsumer i (fun c _ => c.phase == .draining) fun c _ => w.tryPop i c
  | .settle i => w.byConsumer i (fun _ t => t.callable) (w.settle i)
  | .pump i => w.byConsumer i (fun c t => c.phase == .pumping && t.idle) (w.pump i)
  | .sliceOver i => w.byConsumer i (fun c _ => c.phase == .pumping) fun c _ =>
      w.put w.system i { c with phase := .idle }
  | .handlerEnds i ending =>
      w.byConsumer i (fun c t => c.phase == .handling && t.callable) (w.handlerEnds i ending)

/-- Auxiliary: the disposition that was performed between two states of a transport. -/
def performedBetween (stats stats' : Stats) : Option Disposition :=
  if stats'.acksPerformed = stats.acksPerformed + 1 then some .ack
  else if stats'.rejectsPerformed = stats.rejectsPerformed + 1 then some .reject
  else if stats'.requeuesPerformed = stats.requeuesPerformed + 1 then some .requeue
  else none

/-- Auxiliary: a transport holds one delivery at most, the last one it received; it was
resolved when it is no longer outstanding. -/
def observed (t t' : InMemoryTransport) : List Resolution :=
  if t.outstanding.isEmpty = false ∧ t'.outstanding.isEmpty = true then
    [⟨t.stats.received, performedBetween t.stats t'.stats⟩]
  else []

/-- Auxiliary: what an observer of transport `i` adds to the ledger of its Consumer. -/
def observe (w w' : Workers) (i : Nat) (c : Consumer) : Consumer :=
  match w.system.transports[i]?, w'.system.transports[i]? with
  | some t, some t' => { c with ledger.resolved := c.ledger.resolved ++ observed t t' }
  | _, _ => c

/-- A piece of work, and what an observer of every transport writes down. -/
def step (w : Workers) (a : Work) : Workers :=
  let w' := w.act a
  { w' with consumers := fun i => (w'.consumers i).map (w.observe w' i) }

/-- Any pieces of work, in any order. -/
def machine : Machine Workers Work where
  init := {}
  step := step

end Workers

end Motus.Consumer
