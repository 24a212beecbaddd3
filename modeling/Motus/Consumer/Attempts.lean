import Motus.Consumer.Policy
import Motus.Consumer.Staffed
import Motus.InMemory.Distinct

set_option autoImplicit false

/-!
# At most two attempts

A message whose handler throws `TransientFailure` goes back to its topic flagged as
redelivered, and a message so flagged is not requeued again.  `Attempt` is one delivery
of a message, `Lawful` what can have happened to one copy so far, and `Told` ties that
to where the copy is.
-/

namespace Motus.Consumer

open Motus.Foundation Motus.Transport Motus.InMemory InMemoryTransport

/-! ## What can happen to a copy -/

/-- The note is about the copy of this number in this topic. -/
def Note.about (topic : Topic) (number : Nat) : Note → Bool
  | .called t message => t == topic && message.sequence == number
  | .concluded t message _ _ => t == topic && message.sequence == number

/-- The notes about one message. -/
def notesOf (topic : Topic) (number : Nat) (log : List Note) : List Note :=
  log.filter (Note.about topic number)

/-- The messages a handler was called with. -/
def callsIn (notes : List Note) : List Held :=
  notes.filterMap fun
    | .called _ message => some message
    | _ => none

/-- The messages that were requeued. -/
def requeuesIn (notes : List Note) : List Held :=
  notes.filterMap fun
    | .concluded _ message _ .requeue => some message
    | _ => none

/-- The disposition that an `onMessage` handler ends with. -/
inductive Ends (redelivered : Bool) : HandlerEnd → Disposition → Prop where
  | returned (d : Disposition) : Ends redelivered (.returned d) .ack
  | retried (what : String) (hfirst : redelivered = false) :
      Ends redelivered (.transientFailure what) .requeue
  | persisted (what : String) (hagain : redelivered = true) :
      Ends redelivered (.transientFailure what) .reject
  | failed (what : String) : Ends redelivered (.exception what) .reject

/-- One delivery of a message, and the disposition it ended with if it has ended. -/
inductive Attempt (topic : Topic) (message : Held) : List Note → Option Disposition → Prop where
  /-- the body is refused, and no handler is called -/
  | refused {e : EnvelopeError} (hbody : ByteMessage.deserialize message.body = .error e) :
      Attempt topic message [.concluded topic message none .reject] (some .reject)
  | called {decoded : ByteMessage} (hbody : ByteMessage.deserialize message.body = .ok decoded) :
      Attempt topic message [.called topic message] none
  | ended {decoded : ByteMessage} (hbody : ByteMessage.deserialize message.body = .ok decoded)
      {ending : HandlerEnd} {d : Disposition} (hends : Ends message.redelivered ending d) :
      Attempt topic message [.called topic message, .concluded topic message (some ending) d]
        (some d)

/-- What has happened to a message that waits: nothing, or one attempt that requeued it. -/
def Waited (topic : Topic) (message : Held) (notes : List Note) : Prop :=
  message.redelivered = false ∧ notes = [] ∨
    ∃ first : Held, first.redelivered = false ∧ message = { first with redelivered := true } ∧
      Attempt topic first notes (some .requeue)

/-- What can have happened to a copy: it waited, and perhaps there was a further attempt. -/
def Lawful (topic : Topic) (notes : List Note) : Prop :=
  ∃ message earlier, Waited topic message earlier ∧
    (notes = earlier ∨ ∃ attempt verdict, Attempt topic message attempt verdict ∧
      notes = earlier ++ attempt)

/-- What the notes about one copy of a topic say. -/
structure AtMostTwice (topic : Topic) (notes : List Note) : Prop where
  twice : (callsIn notes).length ≤ 2
  /-- the handler is called again only after a transient failure, and with the flag -/
  again : ∀ first second, callsIn notes = [first, second] → second.redelivered = true ∧
    ∃ what rest, notes = .called topic first ::
      .concluded topic first (some (.transientFailure what)) .requeue ::
      .called topic second :: rest
  /-- no handler is called with a body that is refused -/
  decoded : ∀ message ∈ callsIn notes, ∃ decoded,
    ByteMessage.deserialize message.body = .ok decoded
  /-- such a body is rejected the first time it is delivered -/
  refused : ∀ message ending d e, .concluded topic message ending d ∈ notes →
    ByteMessage.deserialize message.body = .error e →
    message.redelivered = false ∧ notes = [.concluded topic message none .reject]
  requeued : (requeuesIn notes).length ≤ 1

section Lawful

variable {topic : Topic} {message : Held} {notes : List Note} {verdict : Option Disposition}

/-- A handler asks for a requeue by throwing `TransientFailure`, and gets it once. -/
theorem ends_requeue {redelivered : Bool} {ending : HandlerEnd}
    (h : Ends redelivered ending .requeue) :
    redelivered = false ∧ ∃ what, ending = .transientFailure what := by
  cases h with
  | retried what hfirst => exact ⟨hfirst, what, rfl⟩

/-- An attempt that requeues is one whose handler threw `TransientFailure`. -/
theorem Attempt.of_requeue (h : Attempt topic message notes (some .requeue)) :
    message.redelivered = false ∧ ∃ decoded what,
      ByteMessage.deserialize message.body = .ok decoded ∧ notes = [.called topic message,
        .concluded topic message (some (.transientFailure what)) .requeue] := by
  cases h with
  | ended hbody hends =>
      obtain ⟨hfirst, what, rfl⟩ := ends_requeue hends
      exact ⟨hfirst, _, what, hbody, rfl⟩

/-- The body of a message whose handler is called has been decoded. -/
theorem Attempt.of_ok {decoded : ByteMessage} (h : Attempt topic message notes verdict)
    (hbody : ByteMessage.deserialize message.body = .ok decoded) :
    notes = [.called topic message] ∨ ∃ ending d, Ends message.redelivered ending d ∧
      notes = [.called topic message, .concluded topic message (some ending) d] := by
  cases h with
  | refused herror =>
      rw [hbody] at herror
      exact absurd herror (by simp)
  | called => exact .inl rfl
  | @ended decoded hbody ending d hends => exact .inr ⟨ending, d, hends, rfl⟩

/-- Nothing was requeued by an attempt that did not end so. -/
theorem requeuesIn_concluded {ending : Option HandlerEnd} {d : Disposition} :
    requeuesIn [.called topic message, .concluded topic message ending d] =
      if d = .requeue then [message] else [] := by
  cases d <;> rfl

/-- A first attempt, whether it has ended or not. -/
theorem Attempt.atMostTwice (h : Attempt topic message notes verdict)
    (hfirst : message.redelivered = false) : AtMostTwice topic notes := by
  cases h with
  | @refused e hbody =>
      refine ⟨Nat.zero_le 2, ?_, by simp [callsIn], ?_, Nat.zero_le 1⟩
      · intro first second hcalls
        exact absurd hcalls (by simp [callsIn])
      · intro m ending d e hmem _
        obtain ⟨-, rfl, -, -⟩ := Note.concluded.inj (List.mem_singleton.mp hmem)
        exact ⟨hfirst, rfl⟩
  | @called decoded hbody =>
      refine ⟨Nat.le_succ 1, ?_, ?_, ?_, Nat.zero_le 1⟩
      · intro first second hcalls
        exact absurd hcalls (by simp [callsIn])
      · intro m hm
        obtain rfl : m = message := by simpa [callsIn] using hm
        exact ⟨decoded, hbody⟩
      · intro m ending d e hmem
        exact absurd hmem (by simp)
  | @ended decoded hbody ending d hends =>
      refine ⟨Nat.le_succ 1, ?_, ?_, ?_, ?_⟩
      · intro first second hcalls
        exact absurd hcalls (by simp [callsIn])
      · intro m hm
        obtain rfl : m = message := by simpa [callsIn] using hm
        exact ⟨decoded, hbody⟩
      · intro m ending' d' e hmem herror
        obtain ⟨rfl, -⟩ : m = message ∧ _ := by simpa using hmem
        rw [hbody] at herror
        exact absurd herror (by simp)
      · rw [requeuesIn_concluded]
        split
        · exact Nat.le_refl 1
        · exact Nat.zero_le 1

/-- A second attempt at a message that the first one requeued. -/
theorem Attempt.atMostTwice_again {decoded : ByteMessage} {what : String}
    (hbody : ByteMessage.deserialize message.body = .ok decoded)
    (h : Attempt topic { message with redelivered := true } notes verdict) :
    AtMostTwice topic (.called topic message ::
      .concluded topic message (some (.transientFailure what)) .requeue :: notes) := by
  have hdecodes : ∀ m : Held, m = message ∨ m = { message with redelivered := true } →
      ByteMessage.deserialize m.body = .ok decoded := by
    rintro m (rfl | rfl)
    · exact hbody
    · exact hbody
  -- whether the second attempt has ended or not
  have hcases : ∃ rest, notes = .called topic { message with redelivered := true } :: rest ∧
      callsIn rest = [] ∧ requeuesIn rest = [] ∧ ∀ m ending d, .concluded topic m ending d ∈ rest →
        m = { message with redelivered := true } := by
    rcases h.of_ok hbody with rfl | ⟨ending, d, hends, rfl⟩
    · exact ⟨[], rfl, rfl, rfl, fun m ending d hmem => absurd hmem List.not_mem_nil⟩
    · refine ⟨_, rfl, rfl, ?_, fun m ending' d' hmem => ?_⟩
      · cases d with
        | requeue => exact absurd (ends_requeue hends).1 (by simp)
        | _ => rfl
      · exact (Note.concluded.inj (List.mem_singleton.mp hmem)).2.1
  obtain ⟨rest, rfl, hcalls, hrequeues, hconcluded⟩ := hcases
  have hboth : callsIn (.called topic message ::
      .concluded topic message (some (.transientFailure what)) .requeue ::
      .called topic { message with redelivered := true } :: rest) =
      message :: { message with redelivered := true } :: callsIn rest := rfl
  rw [hcalls] at hboth
  refine ⟨?_, ?_, ?_, ?_, ?_⟩
  · rw [hboth]
    exact Nat.le_refl 2
  · intro first second heq
    rw [hboth, List.cons.injEq, List.cons.injEq] at heq
    obtain ⟨rfl, rfl, -⟩ := heq
    exact ⟨rfl, what, rest, rfl⟩
  · intro m hm
    rw [hboth, List.mem_cons, List.mem_singleton] at hm
    exact ⟨decoded, hdecodes m hm⟩
  · intro m ending d e hmem herror
    have hm : m = message ∨ m = { message with redelivered := true } := by
      simp only [List.mem_cons, reduceCtorEq, false_or] at hmem
      exact hmem.imp (fun heq => (Note.concluded.inj heq).2.1) (hconcluded m ending d)
    rw [hdecodes m hm] at herror
    exact absurd herror (by simp)
  · exact Nat.le_of_eq (congrArg (·.length + 1) hrequeues)

/-- Whatever has happened to a copy, it was tried at most twice. -/
theorem Lawful.atMostTwice (h : Lawful topic notes) : AtMostTwice topic notes := by
  obtain ⟨message, earlier, hwaited, hnotes⟩ := h
  rcases hwaited with ⟨hfirst, rfl⟩ | ⟨first, hfirst, rfl, hrequeued⟩
  · rcases hnotes with rfl | ⟨attempt, verdict, hattempt, rfl⟩
    · refine ⟨Nat.zero_le 2, ?_, ?_, ?_, Nat.zero_le 1⟩
      · intro first second hcalls
        exact absurd hcalls (by simp [callsIn])
      · intro m hm
        exact absurd hm (by simp [callsIn])
      · intro m ending d e hmem
        exact absurd hmem List.not_mem_nil
    · exact hattempt.atMostTwice hfirst
  · rcases hnotes with rfl | ⟨attempt, verdict, hattempt, rfl⟩
    · exact hrequeued.atMostTwice hfirst
    · obtain ⟨-, decoded, what, hbody, rfl⟩ := hrequeued.of_requeue
      exact hattempt.atMostTwice_again hbody

end Lawful

end Motus.Consumer
