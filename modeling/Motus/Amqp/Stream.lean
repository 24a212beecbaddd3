import Motus.Amqp.Events

set_option autoImplicit false

/-!
# The inbound byte stream

`pumpOnce` puts what a read delivers behind what waits in `_inBuffer`, and `parse`
takes a prefix of it away.  The one place where delivered bytes go nowhere is the
drain of a read that completed after the deadline and before its cancellation
took effect: `pumpOnce` looks at `completed` before the drain and not after it.
-/

namespace Motus.Amqp

open Motus.Foundation Motus.Transport

namespace AmqpConnection

/-- The bytes `parse` consumed, then the bytes that wait, are the bytes the socket
delivered. -/
def Intact (c : AmqpConnection) : Prop := c.consumed.flatten ++ c.inBuffer = c.delivered

instance (c : AmqpConnection) : Decidable c.Intact :=
  inferInstanceAs (Decidable (c.consumed.flatten ++ c.inBuffer = c.delivered))

/-- A drained read that had completed with data. -/
def discards (c : AmqpConnection) (drained : ReadResult) : Bool :=
  match c.socket.read drained with
  | .data bytes => bytes != []
  | .failed _ => false

/-- The stream of one connection is where the stream of the other is. -/
structure SameStream (c c' : AmqpConnection) : Prop where
  consumed : c'.consumed = c.consumed
  inBuffer : c'.inBuffer = c.inBuffer
  delivered : c'.delivered = c.delivered

theorem SameStream.intact_iff {c c' : AmqpConnection} (h : SameStream c c') :
    c'.Intact ↔ c.Intact := by
  unfold Intact
  rw [h.consumed, h.inBuffer, h.delivered]

/-! ## One event -/

theorem sameStream_onData (out : Outbound) (c : AmqpConnection) :
    SameStream c (onData out c).2 := by
  rw [onData_apply]
  cases c.socket.write out <;> exact ⟨rfl, rfl, rfl⟩

theorem intact_readCompleted {c : AmqpConnection} (h : c.Intact) (result : ReadResult) :
    (readCompleted result c).2.Intact := by
  rw [readCompleted_apply]
  cases c.socket.read result with
  | failed ec => exact h
  | data bytes =>
      unfold Intact at h ⊢
      rw [← List.append_assoc, h]

theorem intact_parsed {c : AmqpConnection} (h : c.Intact) (consumed : Nat) :
    (parsed consumed c).2.Intact := by
  unfold Intact at h ⊢
  simp only [parsed, Exec.modify_apply, List.flatten_append, List.flatten_cons, List.flatten_nil,
    List.append_nil]
  rw [List.append_assoc, List.take_append_drop, h]

/-- Only a drain can break the stream, and it does so exactly when it drains data. -/
theorem intact_readExpired_iff {c : AmqpConnection} (h : c.Intact) (drained : ReadResult) :
    (readExpired drained c).2.Intact ↔ c.discards drained = false := by
  simp only [readExpired, Exec.modify_apply, discards]
  unfold Intact at h
  cases c.socket.read drained with
  | failed ec =>
      dsimp only
      split
      · exact ⟨fun _ => rfl, fun _ => h⟩
      · exact ⟨fun _ => rfl, fun _ => h⟩
  | data bytes => simp [Intact, h]

namespace Event

/-- An event that drains data. -/
def discards (c : AmqpConnection) : Event → Bool
  | .readExpired drained => c.discards drained
  | _ => false

theorem intact_step_iff {c : AmqpConnection} (h : c.Intact) (e : Event) :
    (e.step c).Intact ↔ e.discards c = false := by
  have hkeeps : (e.step c).Intact → e.discards c = false →
      ((e.step c).Intact ↔ e.discards c = false) := fun hl hr => ⟨fun _ => hr, fun _ => hl⟩
  have hsame : SameStream c (e.step c) → e.discards c = false →
      ((e.step c).Intact ↔ e.discards c = false) := fun hs => hkeeps (hs.intact_iff.mpr h)
  cases e with
  | readExpired drained => exact intact_readExpired_iff h drained
  | readCompleted result => exact hkeeps (intact_readCompleted h result) rfl
  | parsed consumed => exact hkeeps (intact_parsed h consumed) rfl
  | onData out => exact hsame (sameStream_onData out c) rfl
  | onReady => exact hsame ⟨rfl, rfl, rfl⟩ rfl
  | onError message => exact hsame ⟨rfl, rfl, rfl⟩ rfl
  | onClosed => exact hsame ⟨rfl, rfl, rfl⟩ rfl
  | closeReturned => exact hsame ⟨rfl, rfl, rfl⟩ rfl
  | reachPeer reach =>
      refine hsame ?_ rfl
      cases reach <;> exact ⟨rfl, rfl, rfl⟩
  | constructLibrary header =>
      refine hsame ?_ rfl
      have hheader := sameStream_onData header c
      simp only [Event.step, constructLibrary_apply]
      rcases hrun : AmqpConnection.onData header c with ⟨r, c'⟩
      rw [hrun] at hheader
      cases r with
      | error e => exact hheader
      | ok _ => exact ⟨hheader.consumed, hheader.inBuffer, hheader.delivered⟩
  | closeLibrary out =>
      refine hsame ?_ rfl
      simp only [Event.step, closeLibrary_apply]
      split
      · have hout := sameStream_onData out { c with library := .unusable }
        exact ⟨hout.consumed, hout.inBuffer, hout.delivered⟩
      · exact ⟨rfl, rfl, rfl⟩

end Event

/-! ## The loops -/

variable {κ τ : Type}

/-- Serving has neither delivered nor consumed a byte. -/
def SameWireStream (w w' : Wire τ) : Prop := SameStream w.connection w'.connection

instance : IsPreorder (Wire τ) SameWireStream where
  refl _ := ⟨rfl, rfl, rfl⟩
  trans _ _ _ huv hvw :=
    ⟨hvw.consumed.trans huv.consumed, hvw.inBuffer.trans huv.inBuffer,
      hvw.delivered.trans huv.delivered⟩

/-- A `pumpOnce` that drains data. -/
def Turn.discards (c : AmqpConnection) : Turn κ → Bool
  | .expired drained => c.discards drained
  | .completed _ _ => false

/-- One of the `pumpOnce` calls that `pumpUntil` makes drains data. -/
def pumpUntilDiscards (react : κ → Serving τ Unit) (predicate : Wire τ → Bool) :
    List (Turn κ) → Wire τ → Bool
  | [], _ => false
  | turn :: rest, w =>
      if predicate w then false
      else
        match pumpOnce react turn w with
        | (.ok true, w') => pumpUntilDiscards react predicate rest w'
        | _ => Turn.discards w.connection turn

/-- What a program does with a connection, as far as its stream is concerned. -/
inductive Call (κ τ : Type) where
  /-- a piece of `connect` or `close`, or a write for one of the channels -/
  | event (e : Event)
  | pumpOnce (turn : Turn κ)
  | pumpUntil (predicate : Wire τ → Bool) (turns : List (Turn κ))

namespace Call

/-- What one call does to the connection and its owner. -/
def step (react : κ → Serving τ Unit) (w : Wire τ) : Call κ τ → Wire τ
  | .event e => { w with connection := e.step w.connection }
  | .pumpOnce turn => (AmqpConnection.pumpOnce react turn w).2
  | .pumpUntil predicate turns => (AmqpConnection.pumpUntil react predicate turns w).2

/-- A call on whose way a read that completed with data is drained. -/
def discards (react : κ → Serving τ Unit) (w : Wire τ) : Call κ τ → Bool
  | .event e => e.discards w.connection
  | .pumpOnce turn => Turn.discards w.connection turn
  | .pumpUntil predicate turns => pumpUntilDiscards react predicate turns w

end Call

/-- A connection to an endpoint, beside it the state of its owner, and any calls. -/
def serving (react : κ → Serving τ Unit) (endpoint : Endpoint) (owner : τ) :
    Machine (Wire τ) (Call κ τ) where
  init := ⟨ofEndpoint endpoint, owner⟩
  step := Call.step react

section Loops

variable {react : κ → Serving τ Unit}
  (hreact : ∀ event, Exec.Along SameWireStream (react event))
include hreact

theorem sameStream_callbacks (calls : List (Callback κ)) :
    Exec.Along SameWireStream (callbacks react calls) := by
  induction calls with
  | nil => exact Exec.along_pure _
  | cons first rest ih =>
      apply Exec.along_bind ?_ fun _ => ih
      cases first with
      | channel event => exact hreact event
      | onData out => exact fun w => sameStream_onData out w.connection
      | onReady => exact fun w => ⟨rfl, rfl, rfl⟩
      | onError message => exact fun w => ⟨rfl, rfl, rfl⟩
      | onClosed => exact fun w => ⟨rfl, rfl, rfl⟩

/-- A read that completed in time loses nothing, even when `parse` throws. -/
theorem intact_pumpOnce_completed {w : Wire τ} (h : w.connection.Intact) (result : ReadResult)
    (parse : Parse κ) : (pumpOnce react (.completed result parse) w).2.connection.Intact := by
  have harrived := intact_readCompleted h result
  rw [pumpOnce_completed_apply]
  rcases hread : readCompleted result w.connection with ⟨r, c⟩
  rw [hread] at harrived
  cases r with
  | error e => exact harrived
  | ok arrived =>
      cases arrived with
      | false => exact harrived
      | true =>
          have hcalls := sameStream_callbacks hreact parse.callbacks { w with connection := c }
          dsimp only
          rcases hrun : callbacks react parse.callbacks { w with connection := c } with ⟨r, w'⟩
          rw [hrun] at hcalls
          have hafter : w'.connection.Intact := hcalls.intact_iff.mpr harrived
          cases r with
          | error e => exact hafter
          | ok _ => exact intact_parsed hafter parse.consumed

theorem intact_pumpOnce_iff {w : Wire τ} (h : w.connection.Intact) (turn : Turn κ) :
    (pumpOnce react turn w).2.connection.Intact ↔ Turn.discards w.connection turn = false := by
  cases turn with
  | expired drained => exact intact_readExpired_iff h drained
  | completed result parse =>
      exact ⟨fun _ => rfl, fun _ => intact_pumpOnce_completed hreact h result parse⟩

/-- Induction on the turns: a drain ends the loop, so at most the last `pumpOnce`
of it can break the stream. -/
theorem intact_pumpUntil_iff (predicate : Wire τ → Bool) (turns : List (Turn κ)) {w : Wire τ}
    (h : w.connection.Intact) :
    (pumpUntil react predicate turns w).2.connection.Intact ↔
      pumpUntilDiscards react predicate turns w = false := by
  induction turns generalizing w with
  | nil => exact ⟨fun _ => rfl, fun _ => h⟩
  | cons turn rest ih =>
      have honce := intact_pumpOnce_iff hreact h turn
      unfold pumpUntil pumpUntilDiscards
      rw [Exec.get_bind]
      by_cases hdone : predicate w = true
      · rw [if_pos hdone, if_pos hdone]
        exact ⟨fun _ => rfl, fun _ => h⟩
      rw [if_neg hdone, if_neg hdone, Exec.bind_apply]
      rcases hrun : pumpOnce react turn w with ⟨r, w'⟩
      rw [hrun] at honce
      cases r with
      | error e => exact honce
      | ok served =>
          cases served with
          | false => exact honce
          | true =>
              have hcompleted : Turn.discards w.connection turn = false := by
                cases turn with
                | completed result parse => rfl
                | expired drained =>
                    rw [pumpOnce_expired_apply] at hrun
                    cases hrun
              exact ih (honce.mpr hcompleted)

theorem intact_step_iff {w : Wire τ} (h : w.connection.Intact) (call : Call κ τ) :
    (call.step react w).connection.Intact ↔ call.discards react w = false := by
  cases call with
  | event e => exact e.intact_step_iff h
  | pumpOnce turn => exact intact_pumpOnce_iff hreact h turn
  | pumpUntil predicate turns => exact intact_pumpUntil_iff hreact predicate turns h

end Loops

/-- The stream is intact throughout exactly in the runs that never drain a read
which had completed with data; what the channels' callbacks do meanwhile does not
matter, as long as they do not read. -/
theorem intact_iff_discardsNothing (react : κ → Serving τ Unit)
    (hreact : ∀ event, Exec.Along SameWireStream (react event)) (endpoint : Endpoint) (owner : τ)
    (calls : List (Call κ τ)) :
    (serving react endpoint owner).Always (fun w => w.connection.Intact) calls ↔
      (serving react endpoint owner).Guarded (fun w call => call.discards react w = false)
        calls := by
  apply Machine.alwaysFrom_iff_guardedFrom (J := fun _ => True) (fun _ _ h => h)
  · intro w call _ hintact hnothing
    exact (intact_step_iff hreact hintact call).mpr hnothing
  · intro w call _ hintact hnext
    exact (intact_step_iff hreact hintact call).mp hnext
  · trivial
  · rfl

/-! ## A read in three fragments -/

/-- Callbacks that only write, as a channel does for its owner. -/
def writeFrame (out : Outbound) : Serving Unit Unit := onWire (onData out)

theorem sameStream_writeFrame (out : Outbound) : Exec.Along SameWireStream (writeFrame out) :=
  fun w => sameStream_onData out w.connection

/-- A handshake, and a frame of three bytes that arrives in two reads. -/
def fragmentedRun : List (Call Outbound Unit) :=
  [.event (.reachPeer .connected), .event (.constructLibrary {}),
    .pumpUntil handshakeOver
      [.completed (.data [9]) { callbacks := [.onReady, .channel { size := 8 }], consumed := 1 }],
    .pumpUntil (fun _ => false)
      [.completed (.data [1, 2]) {}, .completed (.data [3]) { consumed := 3 },
        .expired (.failed ⟨.operationAborted, ""⟩)]]

theorem intact_iff_discardsNothing_fragmentedRun :
    (serving writeFrame {} ()).Always (fun w => w.connection.Intact) fragmentedRun :=
  (intact_iff_discardsNothing writeFrame sameStream_writeFrame {} () fragmentedRun).mpr (by decide)

/-- The same frame, but its second fragment is read between the deadline and the
cancellation. -/
def drainedRun : List (Call Outbound Unit) :=
  [.event (.reachPeer .connected), .event (.constructLibrary {}),
    .pumpUntil handshakeOver [.completed (.data [9]) { callbacks := [.onReady], consumed := 1 }],
    .pumpUntil (fun _ => false) [.completed (.data [1, 2]) {}, .expired (.data [3])],
    .pumpUntil (fun _ => false) [.completed (.data [4]) { consumed := 3 }]]

/-- `parse` is given `1, 2, 4` where the socket delivered `1, 2, 3, 4`. -/
theorem drainedRun_loses :
    ¬ (serving writeFrame {} ()).Always (fun w => w.connection.Intact) drainedRun ∧
      ((serving writeFrame {} ()).run drainedRun).connection.consumed.flatten = [9, 1, 2, 4] ∧
      ((serving writeFrame {} ()).run drainedRun).connection.delivered = [9, 1, 2, 3, 4] := by
  decide

end AmqpConnection

end Motus.Amqp
