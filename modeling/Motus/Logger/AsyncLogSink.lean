import Motus.Transport.Seam
import Motus.Foundation.Machine

set_option autoImplicit false

/-!
# The diagnostic log (`src/src/Logger.cpp`)

Callers of `write` hand records to one worker over a bounded queue.  `_queueMutex` guards
the queue and the in-flight flag, `_sinkMutex` the sink, and the drop counter is atomic,
so each critical section and each update of the counter is one step, and the steps of
the callers and of the worker come in any order.  A `write` is complete, and a `flush`
returns, when it gives `_queueMutex` back: nothing it does after that writes the state.

What the callers did is not counted by the functions that model the code.  `step` notes
every `write` itself, as complete and, unless the drop counter went up, as accepted; so an
`enqueue` that did nothing would be found out.
-/

namespace Motus.Logger

open Motus.Foundation Motus.Transport

/-- `LogLevel`, in the order of its values. -/
inductive LogLevel where
  | trace
  | debug
  | info
  | warn
  | error
  | off
  deriving DecidableEq, Repr

/-- The fixed-width name of a level in a line. -/
def levelName : LogLevel → String
  | .trace => "TRACE"
  | .debug => "DEBUG"
  | .info => "INFO "
  | .warn => "WARN "
  | .error => "ERROR"
  | .off => "OFF  "

/-- `AsyncLogSink::Record`: one finished line and its level. -/
structure Record where
  level : LogLevel
  line : Bytes
  deriving DecidableEq, Repr

/-- The queue holds at most so many records. -/
def kMaxPendingLines : Nat := 1024

/-- And their lines at most so many bytes. -/
def kMaxPendingBytes : Nat := 1024 * 1024

/-- The bytes of the lines of some records. -/
def lineBytes (records : List Record) : Nat := (records.map (·.line.length)).sum

/-- Where the worker is in its loop. -/
inductive Worker (κ : Type) where
  /-- it waits for a record -/
  | waiting
  /-- it has taken one from the queue -/
  | took (record : Record)
  /-- it calls the sink, or writes to stderr -/
  | calling (record : Record) (sink : Option κ)
  /-- the call has thrown -/
  | threw
  /-- the record is done with -/
  | over

/-- The process-wide sink, with its worker and the threads inside `flush`. -/
structure AsyncLogSink (κ : Type) where
  pending : List Record := []
  pendingBytes : Nat := 0
  inFlight : Bool := false
  dropped : Nat := 0
  /-- `none` is the default sink, stderr -/
  sink : Option κ := none
  worker : Worker κ := .waiting
  flushing : Nat := 0
  /-- Auxiliary: the calls of `write` that are complete, and the records of those that did
  not count a drop. -/
  completed : Nat := 0
  accepted : List Record := []
  /-- Auxiliary: the calls of a sink, oldest first, and how many returned normally. -/
  calls : List (Record × Option κ) := []
  returned : Nat := 0
  /-- Auxiliary: the calls of `flush` that have returned. -/
  flushed : Nat := 0

namespace AsyncLogSink

variable {κ : Type}

/-- The test of `enqueue`: the queue has no room for the line. -/
def full (s : AsyncLogSink κ) (line : Bytes) : Bool :=
  decide (kMaxPendingLines ≤ s.pending.length ∨
    kMaxPendingBytes - min s.pendingBytes kMaxPendingBytes < line.length)

/-- `enqueue`, when every allocation succeeds: a line without room is a drop. -/
def enqueue (level : LogLevel) (line : Bytes) (s : AsyncLogSink κ) : AsyncLogSink κ :=
  if s.full line then { s with dropped := s.dropped + 1 }
  else { s with
    pendingBytes := s.pendingBytes + line.length
    pending := s.pending ++ [⟨level, line⟩] }

/-- The line that `Logger::write` makes of a message, with the timestamp it reads. -/
def logLine (stamp : Bytes) (level : LogLevel) (message : Bytes) : Bytes :=
  stamp ++ (" [" ++ levelName level ++ "] ").toUTF8.toList ++ message

/-- `Logger::write`. -/
def write (stamp : Bytes) (level : LogLevel) (message : Bytes) (s : AsyncLogSink κ) :
    AsyncLogSink κ := s.enqueue level (logLine stamp level message)

/-- Auxiliary: the call that led from `s` to `s'` wrote this record and is complete. -/
def wrote (record : Record) (s s' : AsyncLogSink κ) : AsyncLogSink κ :=
  { s' with
    completed := s.completed + 1
    accepted := if s'.dropped = s.dropped then s.accepted ++ [record] else s.accepted }

/-- `setSink`; records that are still queued go to the new sink. -/
def setSink (sink : Option κ) (s : AsyncLogSink κ) : AsyncLogSink κ := { s with sink := sink }

/-- `flush` starts to wait. -/
def beginFlush (s : AsyncLogSink κ) : AsyncLogSink κ := { s with flushing := s.flushing + 1 }

/-- What a waiting `flush` waits for. -/
def drained (s : AsyncLogSink κ) : Bool := s.pending.isEmpty && !s.inFlight

/-- A waiting `flush` wakes up, and returns if it finds the sink drained. -/
def endFlush (s : AsyncLogSink κ) : AsyncLogSink κ :=
  if 0 < s.flushing ∧ s.drained then
    { s with flushing := s.flushing - 1, flushed := s.flushed + 1 }
  else s

/-! ## The worker -/

/-- The first critical section of the loop. -/
def take (s : AsyncLogSink κ) : AsyncLogSink κ :=
  match s.worker, s.pending with
  | .waiting, record :: rest => { s with
      worker := .took record
      pending := rest
      pendingBytes := s.pendingBytes - record.line.length
      inFlight := true }
  | _, _ => s

/-- `sinkSnapshot`, and the call of what it gives. -/
def callSink (s : AsyncLogSink κ) : AsyncLogSink κ :=
  match s.worker with
  | .took record => { s with
      worker := .calling record s.sink
      calls := s.calls ++ [(record, s.sink)] }
  | _ => s

/-- The sink, or the write to stderr, returns. -/
def sinkReturns (s : AsyncLogSink κ) : AsyncLogSink κ :=
  match s.worker with
  | .calling _ _ => { s with worker := .over, returned := s.returned + 1 }
  | _ => s

/-- It throws. -/
def sinkThrows (s : AsyncLogSink κ) : AsyncLogSink κ :=
  match s.worker with
  | .calling _ _ => { s with worker := .threw }
  | _ => s

/-- The `catch` of the loop. -/
def countDrop (s : AsyncLogSink κ) : AsyncLogSink κ :=
  match s.worker with
  | .threw => { s with worker := .over, dropped := s.dropped + 1 }
  | _ => s

/-- The last critical section of the loop. -/
def land (s : AsyncLogSink κ) : AsyncLogSink κ :=
  match s.worker with
  | .over => { s with worker := .waiting, inFlight := false }
  | _ => s

end AsyncLogSink

/-- A step of a caller or of the worker; one that cannot be taken changes nothing. -/
inductive Action (κ : Type) where
  | write (stamp : Bytes) (level : LogLevel) (message : Bytes)
  | setSink (sink : Option κ)
  | beginFlush
  | endFlush
  | take
  | callSink
  | sinkReturns
  | sinkThrows
  | countDrop
  | land

/-- The record that a step writes, if it is a `write`. -/
def Action.written {κ : Type} : Action κ → List Record
  | .write stamp level message => [⟨level, AsyncLogSink.logLine stamp level message⟩]
  | _ => []

namespace AsyncLogSink

variable {κ : Type}

/-- One step, with a note of the `write` it completes. -/
def step (s : AsyncLogSink κ) : Action κ → AsyncLogSink κ
  | .write stamp level message =>
      wrote ⟨level, logLine stamp level message⟩ s (s.write stamp level message)
  | .setSink sink => s.setSink sink
  | .beginFlush => s.beginFlush
  | .endFlush => s.endFlush
  | .take => s.take
  | .callSink => s.callSink
  | .sinkReturns => s.sinkReturns
  | .sinkThrows => s.sinkThrows
  | .countDrop => s.countDrop
  | .land => s.land

/-- The log of a process, under any interleaving of its threads. -/
def machine (κ : Type) : Machine (AsyncLogSink κ) (Action κ) where
  init := {}
  step := step

end AsyncLogSink

/-! ## What is invariant -/

/-- A record that the worker has taken and not yet passed on. -/
def Worker.held {κ : Type} : Worker κ → List Record
  | .took record => [record]
  | _ => []

/-- A record that is taken and neither delivered nor counted as dropped. -/
def Worker.open {κ : Type} : Worker κ → Nat
  | .took _ | .calling _ _ | .threw => 1
  | .waiting | .over => 0

/-- The worker is between two records. -/
def Worker.isWaiting {κ : Type} : Worker κ → Bool
  | .waiting => true
  | _ => false

theorem lineBytes_append (records records' : List Record) :
    lineBytes (records ++ records') = lineBytes records + lineBytes records' := by
  rw [lineBytes, List.map_append, List.sum_append]
  rfl

theorem lineBytes_cons (record : Record) (records : List Record) :
    lineBytes (record :: records) = record.line.length + lineBytes records := by
  rw [lineBytes, List.map_cons, List.sum_cons]
  rfl

namespace AsyncLogSink

variable {κ : Type}

/-- What every step keeps. -/
structure Sound (s : AsyncLogSink κ) : Prop where
  counted : s.pendingBytes = lineBytes s.pending
  lines : s.pending.length ≤ kMaxPendingLines
  bytes : s.pendingBytes ≤ kMaxPendingBytes
  /-- the flag is up exactly while the worker has a record -/
  flag : s.inFlight = !s.worker.isWaiting
  /-- an accepted record was passed on, is with the worker or waits -/
  order : s.accepted = s.calls.map (·.1) ++ s.worker.held ++ s.pending
  /-- a completed write was delivered or dropped, or its record is on its way -/
  balance : s.completed = s.returned + s.dropped + s.worker.open + s.pending.length

theorem sound_init : Sound (machine κ).init :=
  ⟨rfl, Nat.zero_le _, Nat.zero_le _, rfl, rfl, rfl⟩

/-- A drop is noted as a completed write that was not accepted. -/
theorem wrote_dropped (record : Record) (s : AsyncLogSink κ) :
    wrote record s { s with dropped := s.dropped + 1 } =
      { s with dropped := s.dropped + 1, completed := s.completed + 1 } := by
  unfold wrote
  rw [if_neg (Nat.succ_ne_self s.dropped)]

/-- A call that counts no drop is noted as one that was accepted. -/
theorem wrote_accepted {s s' : AsyncLogSink κ} (record : Record) (h : s'.dropped = s.dropped) :
    wrote record s s' =
      { s' with completed := s.completed + 1, accepted := s.accepted ++ [record] } := by
  unfold wrote
  rw [if_pos h]

theorem Sound.enqueue {s : AsyncLogSink κ} (h : Sound s) (level : LogLevel) (line : Bytes) :
    Sound (wrote ⟨level, line⟩ s (s.enqueue level line)) := by
  have hbalance := h.balance
  unfold AsyncLogSink.enqueue
  cases hfull : s.full line with
  | true =>
      rw [if_pos rfl, wrote_dropped]
      refine ⟨h.counted, h.lines, h.bytes, h.flag, h.order, ?_⟩
      dsimp only
      omega
  | false =>
      rw [if_neg Bool.false_ne_true, wrote_accepted _ (by rfl)]
      have hroom := hfull
      simp only [full, decide_eq_false_iff_not, not_or, not_le, not_lt] at hroom
      refine ⟨?_, ?_, ?_, h.flag, ?_, ?_⟩
      · dsimp only
        rw [lineBytes_append, ← h.counted]
        rfl
      · rw [List.length_append, List.length_singleton]
        exact hroom.1
      · have hbytes := h.bytes
        dsimp only
        omega
      · dsimp only
        rw [h.order, List.append_assoc]
      · rw [List.length_append, List.length_singleton]
        dsimp only
        omega

theorem Sound.take {s : AsyncLogSink κ} (h : Sound s) : Sound s.take := by
  unfold AsyncLogSink.take
  split
  · next record rest hworker hpending =>
      have hcounted := h.counted
      have hlines := h.lines
      have hbytes := h.bytes
      have hbalance := h.balance
      have horder := h.order
      rw [hpending, lineBytes_cons] at hcounted
      rw [hpending, List.length_cons] at hlines
      rw [hpending, List.length_cons, hworker] at hbalance
      rw [hpending, hworker] at horder
      refine ⟨?_, ?_, ?_, rfl, ?_, ?_⟩
      · dsimp only
        omega
      · dsimp only
        omega
      · dsimp only
        omega
      · rw [horder]
        simp [Worker.held]
      · dsimp only [Worker.open] at hbalance ⊢
        omega
  · exact h

/-- The steps of the worker after it has taken a record. -/
theorem Sound.pass {s s' : AsyncLogSink κ} (h : Sound s)
    (hpending : s'.pending = s.pending) (hbytes : s'.pendingBytes = s.pendingBytes)
    (hflag : s'.inFlight = !s'.worker.isWaiting) (haccepted : s'.accepted = s.accepted)
    (horder : s'.calls.map (·.1) ++ s'.worker.held = s.calls.map (·.1) ++ s.worker.held)
    (hcompleted : s'.completed = s.completed)
    (hbalance : s'.returned + s'.dropped + s'.worker.open =
      s.returned + s.dropped + s.worker.open) : Sound s' := by
  refine ⟨?_, ?_, ?_, hflag, ?_, ?_⟩
  · rw [hbytes, hpending, h.counted]
  · rw [hpending]
    exact h.lines
  · rw [hbytes]
    exact h.bytes
  · rw [haccepted, horder, hpending, h.order]
  · rw [hcompleted, hbalance, hpending, h.balance]

theorem Sound.callSink {s : AsyncLogSink κ} (h : Sound s) : Sound s.callSink := by
  unfold AsyncLogSink.callSink
  split
  · next record hworker =>
      refine h.pass rfl rfl ?_ rfl ?_ rfl ?_
      · rw [h.flag, hworker]
        rfl
      · rw [hworker, List.map_append]
        simp [Worker.held]
      · rw [hworker]
        rfl
  · exact h

theorem Sound.sinkReturns {s : AsyncLogSink κ} (h : Sound s) : Sound s.sinkReturns := by
  unfold AsyncLogSink.sinkReturns
  split
  · next record sink hworker =>
      refine h.pass rfl rfl ?_ rfl ?_ rfl ?_
      · rw [h.flag, hworker]
        rfl
      · rw [hworker]
        rfl
      · rw [hworker]
        dsimp only [Worker.open]
        omega
  · exact h

theorem Sound.sinkThrows {s : AsyncLogSink κ} (h : Sound s) : Sound s.sinkThrows := by
  unfold AsyncLogSink.sinkThrows
  split
  · next record sink hworker =>
      refine h.pass rfl rfl ?_ rfl ?_ rfl ?_
      · rw [h.flag, hworker]
        rfl
      · rw [hworker]
        rfl
      · rw [hworker]
        rfl
  · exact h

theorem Sound.countDrop {s : AsyncLogSink κ} (h : Sound s) : Sound s.countDrop := by
  unfold AsyncLogSink.countDrop
  split
  · next hworker =>
      refine h.pass rfl rfl ?_ rfl ?_ rfl ?_
      · rw [h.flag, hworker]
        rfl
      · rw [hworker]
        rfl
      · rw [hworker]
        dsimp only [Worker.open]
        omega
  · exact h

theorem Sound.land {s : AsyncLogSink κ} (h : Sound s) : Sound s.land := by
  unfold AsyncLogSink.land
  split
  · next hworker =>
      refine h.pass rfl rfl rfl rfl ?_ rfl ?_
      · rw [hworker]
        rfl
      · rw [hworker]
        rfl
  · exact h

/-- The step lemma. -/
theorem Sound.step {s : AsyncLogSink κ} (h : Sound s) (a : Action κ) : Sound (s.step a) := by
  cases a with
  | write stamp level message => exact h.enqueue level _
  | setSink sink => exact ⟨h.counted, h.lines, h.bytes, h.flag, h.order, h.balance⟩
  | beginFlush => exact ⟨h.counted, h.lines, h.bytes, h.flag, h.order, h.balance⟩
  | endFlush =>
      change Sound s.endFlush
      unfold AsyncLogSink.endFlush
      split
      · exact ⟨h.counted, h.lines, h.bytes, h.flag, h.order, h.balance⟩
      · exact h
  | take => exact h.take
  | callSink => exact h.callSink
  | sinkReturns => exact h.sinkReturns
  | sinkThrows => exact h.sinkThrows
  | countDrop => exact h.countDrop
  | land => exact h.land

/-! ## What the callers can rely on -/

/-- What holds at every moment. -/
structure Kept (s : AsyncLogSink κ) : Prop where
  lines : s.pending.length ≤ kMaxPendingLines
  bytes : lineBytes s.pending ≤ kMaxPendingBytes
  /-- the records passed to a sink are the first accepted ones, in their order -/
  inOrder : s.calls.map (·.1) <+: s.accepted
  /-- what was accepted and not passed on is with the worker or waits -/
  unskipped : s.accepted = s.calls.map (·.1) ++ s.worker.held ++ s.pending
  conserved : s.inFlight = false → s.completed = s.returned + s.dropped + s.pending.length
  /-- a `flush` returns only when every accepted record has been through the sink -/
  flush : ∀ a, (s.step a).flushed ≠ s.flushed →
    s.pending = [] ∧ s.inFlight = false ∧ s.worker.isWaiting = true ∧
      s.calls.map (·.1) = s.accepted

/-- Only the end of a `flush` counts one. -/
theorem flushed_step (s : AsyncLogSink κ) {a : Action κ} (ha : a ≠ .endFlush) :
    (s.step a).flushed = s.flushed := by
  cases a with
  | endFlush => exact absurd rfl ha
  | setSink sink => rfl
  | beginFlush => rfl
  | write stamp level message =>
      unfold step write enqueue wrote
      dsimp only
      split <;> rfl
  | take =>
      unfold step take
      dsimp only
      split <;> rfl
  | callSink =>
      unfold step callSink
      dsimp only
      split <;> rfl
  | sinkReturns =>
      unfold step sinkReturns
      dsimp only
      split <;> rfl
  | sinkThrows =>
      unfold step sinkThrows
      dsimp only
      split <;> rfl
  | countDrop =>
      unfold step countDrop
      dsimp only
      split <;> rfl
  | land =>
      unfold step land
      dsimp only
      split <;> rfl

/-- A `flush` that returns has found the sink drained. -/
theorem drained_of_flushed {s : AsyncLogSink κ} {a : Action κ}
    (h : (s.step a).flushed ≠ s.flushed) : s.drained = true := by
  by_cases ha : a = .endFlush
  · subst ha
    change s.endFlush.flushed ≠ s.flushed at h
    unfold endFlush at h
    split at h
    · next hreturns => exact hreturns.2
    · exact absurd rfl h
  · exact absurd (flushed_step s ha) h

theorem Sound.kept {s : AsyncLogSink κ} (h : Sound s) : Kept s := by
  have hwaiting : s.inFlight = false → s.worker.isWaiting = true := by
    intro hflag
    have hsame := h.flag
    rw [hflag] at hsame
    simpa using hsame.symm
  refine ⟨h.lines, h.counted ▸ h.bytes, ?_, h.order, fun hflag => ?_, fun a ha => ?_⟩
  · rw [h.order, List.append_assoc]
    exact List.prefix_append _ _
  · have hopen : s.worker.open = 0 := by
      have hnow := hwaiting hflag
      cases hworker : s.worker with
      | waiting => rfl
      | _ => rw [hworker] at hnow; exact absurd hnow Bool.false_ne_true
    rw [h.balance, hopen, Nat.add_zero]
  · have hdrained := drained_of_flushed ha
    simp only [drained, Bool.and_eq_true, List.isEmpty_iff, Bool.not_eq_true'] at hdrained
    obtain ⟨hpending, hflag⟩ := hdrained
    have hnow := hwaiting hflag
    refine ⟨hpending, hflag, hnow, ?_⟩
    have hheld : s.worker.held = [] := by
      cases hworker : s.worker with
      | took record => rw [hworker] at hnow; exact absurd hnow Bool.false_ne_true
      | _ => rfl
    rw [h.order, hheld, hpending, List.append_nil, List.append_nil]

/-- A step completes the `write` that it is, and accepts its record or not. -/
theorem noted_step (s : AsyncLogSink κ) (a : Action κ) :
    (s.step a).completed = s.completed + a.written.length ∧
      ∃ kept, kept.Sublist a.written ∧ (s.step a).accepted = s.accepted ++ kept := by
  have hsame : ∀ s' : AsyncLogSink κ, s'.completed = s.completed → s'.accepted = s.accepted →
      s'.completed = s.completed + 0 ∧
        ∃ kept : List Record, kept.Sublist [] ∧ s'.accepted = s.accepted ++ kept :=
    fun s' hcompleted haccepted =>
      ⟨hcompleted, [], List.Sublist.refl [], by rw [haccepted, List.append_nil]⟩
  cases a with
  | write stamp level message =>
      refine ⟨rfl, ?_⟩
      unfold step wrote
      dsimp only
      split
      · exact ⟨_, List.Sublist.refl _, rfl⟩
      · exact ⟨[], List.nil_sublist _, (List.append_nil _).symm⟩
  | setSink sink => exact hsame _ rfl rfl
  | beginFlush => exact hsame _ rfl rfl
  | endFlush =>
      unfold step endFlush
      dsimp only
      split <;> exact hsame _ rfl rfl
  | take =>
      unfold step take
      dsimp only
      split <;> exact hsame _ rfl rfl
  | callSink =>
      unfold step callSink
      dsimp only
      split <;> exact hsame _ rfl rfl
  | sinkReturns =>
      unfold step sinkReturns
      dsimp only
      split <;> exact hsame _ rfl rfl
  | sinkThrows =>
      unfold step sinkThrows
      dsimp only
      split <;> exact hsame _ rfl rfl
  | countDrop =>
      unfold step countDrop
      dsimp only
      split <;> exact hsame _ rfl rfl
  | land =>
      unfold step land
      dsimp only
      split <;> exact hsame _ rfl rfl

/-- The run lemma: the completed writes are the calls of `write`, and the accepted records
are some of theirs, in the order of the calls. -/
theorem noted_runFrom (s : AsyncLogSink κ) (actions : List (Action κ)) :
    ((machine κ).runFrom s actions).completed =
        s.completed + (actions.flatMap Action.written).length ∧
      ∃ kept, kept.Sublist (actions.flatMap Action.written) ∧
        ((machine κ).runFrom s actions).accepted = s.accepted ++ kept := by
  induction actions generalizing s with
  | nil => exact ⟨rfl, [], List.Sublist.refl [], (List.append_nil _).symm⟩
  | cons a rest ih =>
      obtain ⟨hcompleted, kept, hkept, haccepted⟩ := noted_step s a
      obtain ⟨hcompleted', kept', hkept', haccepted'⟩ := ih (s.step a)
      rw [List.flatMap_cons]
      refine ⟨?_, kept ++ kept', hkept.append hkept', ?_⟩
      · rw [List.length_append, ← Nat.add_assoc, ← hcompleted]
        exact hcompleted'
      · rw [← List.append_assoc, ← haccepted]
        exact haccepted'

/-- In every state of every interleaving.  The completed writes are the calls of `write` that
the run has made, and the accepted records are records of theirs, in their order. -/
theorem always_kept (actions : List (Action κ)) :
    (machine κ).Always Kept actions ∧
      ((machine κ).run actions).completed = (actions.flatMap Action.written).length ∧
      ((machine κ).run actions).accepted.Sublist (actions.flatMap Action.written) := by
  have hsound : (machine κ).Always Sound actions :=
    .of_step actions (fun s a h => h.step a) sound_init
  obtain ⟨hcompleted, kept, hkept, haccepted⟩ := noted_runFrom (machine κ).init actions
  refine ⟨hsound.mono fun s h => h.kept, ?_, ?_⟩
  · exact hcompleted.trans (Nat.zero_add _)
  · exact (show ((machine κ).run actions).accepted = kept from haccepted) ▸ hkept

/-- A sink that throws costs its record and does not hold up a `flush`. -/
example : ((machine Nat).run [.setSink (some 0), .write [] .warn [1], .beginFlush, .take,
    .callSink, .sinkThrows, .countDrop, .endFlush, .land, .endFlush]).flushed = 1 := by
  decide +kernel

end AsyncLogSink

end Motus.Logger
