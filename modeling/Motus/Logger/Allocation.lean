import Motus.Logger.AsyncLogSink

set_option autoImplicit false

/-!
# The diagnostic log out of memory

`enqueue` counts the bytes of a line and then appends the record.  `push_back` may find no
memory; the deque is then as it was, and the `catch` of `enqueue` counts the drop.

`leak` is what one call of `enqueue` counts for a record that it does not append.  The
counter of the queue is above the bytes that wait by everything that has leaked so far, and
`full` compares it with the bound, so that this much of the queue is gone for good.
-/

namespace Motus.Logger

open Motus.Foundation Motus.Transport

namespace AsyncLogSink

variable {κ : Type}

/-- `enqueue` in the order of its statements; `memory` is whether `push_back` finds any. -/
def enqueueOn (memory : Bool) (level : LogLevel) (line : Bytes) (s : AsyncLogSink κ) :
    AsyncLogSink κ :=
  if s.full line then { s with dropped := s.dropped + 1 }
  else
    let s := { s with pendingBytes := s.pendingBytes + line.length }
    if memory then { s with pending := s.pending ++ [⟨level, line⟩] }
    else { s with dropped := s.dropped + 1 }

theorem enqueueOn_true (level : LogLevel) (line : Bytes) (s : AsyncLogSink κ) :
    s.enqueueOn true level line = s.enqueue level line := rfl

end AsyncLogSink

/-- A step of the log, or a call of `enqueue` that may find no memory. -/
inductive Attempt (κ : Type) where
  | enqueue (level : LogLevel) (line : Bytes) (memory : Bool)
  | step (action : Action κ)

namespace AsyncLogSink

variable {κ : Type}

/-- One attempt, with a note of the call of `enqueue` it completes. -/
def attempt (s : AsyncLogSink κ) : Attempt κ → AsyncLogSink κ
  | .enqueue level line memory => wrote ⟨level, line⟩ s (s.enqueueOn memory level line)
  | .step action => s.step action

/-- The log of a process that may run out of memory. -/
def allocating (κ : Type) : Machine (AsyncLogSink κ) (Attempt κ) where
  init := {}
  step := attempt

/-! ## The drift -/

/-- The bytes an attempt counts and does not append. -/
def leak (s : AsyncLogSink κ) : Attempt κ → Nat
  | .enqueue _ line false => if s.full line then 0 else line.length
  | .enqueue _ _ true => 0
  | .step _ => 0

/-- The bytes that the attempts of a run leak. -/
def leaked : AsyncLogSink κ → List (Attempt κ) → Nat
  | _, [] => 0
  | s, a :: rest => s.leak a + leaked (s.attempt a) rest

/-- The counter is so far above the bytes that wait, and within its bound. -/
structure Drifted (drift : Nat) (s : AsyncLogSink κ) : Prop where
  counted : s.pendingBytes = lineBytes s.pending + drift
  bytes : s.pendingBytes ≤ kMaxPendingBytes

theorem length_le_of_not_full {s : AsyncLogSink κ} {line : Bytes} (h : s.full line = false) :
    line.length ≤ kMaxPendingBytes - min s.pendingBytes kMaxPendingBytes := by
  simp only [full, decide_eq_false_iff_not, not_or, not_le, not_lt] at h
  exact h.2

/-- What is noted about a call touches neither the queue nor its counter. -/
theorem Drifted.wrote {drift : Nat} {s s' : AsyncLogSink κ} (h : Drifted drift s')
    (record : Record) : Drifted drift (wrote record s s') := ⟨h.counted, h.bytes⟩

theorem Drifted.enqueueOn {drift : Nat} {s : AsyncLogSink κ} (h : Drifted drift s)
    (level : LogLevel) (line : Bytes) (memory : Bool) :
    Drifted (drift + s.leak (.enqueue level line memory)) (s.enqueueOn memory level line) := by
  have hcounted := h.counted
  have hbytes := h.bytes
  unfold AsyncLogSink.enqueueOn
  cases hfull : s.full line with
  | true =>
      have hleak : s.leak (.enqueue level line memory) = 0 := by
        cases memory with
        | true => rfl
        | false => exact if_pos hfull
      rw [if_pos rfl, hleak]
      exact ⟨hcounted, hbytes⟩
  | false =>
      have hroom := length_le_of_not_full hfull
      rw [if_neg Bool.false_ne_true]
      have hspace : s.pendingBytes + line.length ≤ kMaxPendingBytes := by omega
      cases memory with
      | true =>
          refine ⟨?_, hspace⟩
          change s.pendingBytes + line.length = lineBytes (s.pending ++ [⟨level, line⟩]) + drift
          have hone : lineBytes [⟨level, line⟩] = line.length := rfl
          rw [lineBytes_append, hone]
          omega
      | false =>
          have hleak : s.leak (.enqueue level line false) = line.length :=
            if_neg (by rw [hfull]; exact Bool.false_ne_true)
          rw [hleak]
          refine ⟨?_, hspace⟩
          change s.pendingBytes + line.length = lineBytes s.pending + (drift + line.length)
          omega

/-- What a step of the log does to the queue and its counter. -/
theorem queue_step (s : AsyncLogSink κ) (a : Action κ) :
    (∃ level line, s.step a = AsyncLogSink.wrote ⟨level, line⟩ s (s.enqueueOn true level line)) ∨
    (∃ record rest, s.pending = record :: rest ∧ (s.step a).pending = rest ∧
      (s.step a).pendingBytes = s.pendingBytes - record.line.length) ∨
    ((s.step a).pending = s.pending ∧ (s.step a).pendingBytes = s.pendingBytes) := by
  cases a with
  | write stamp level message => exact .inl ⟨level, _, rfl⟩
  | setSink sink => exact .inr (.inr ⟨rfl, rfl⟩)
  | beginFlush => exact .inr (.inr ⟨rfl, rfl⟩)
  | take =>
      unfold step take
      dsimp only
      split
      · next record rest hworker hpending => exact .inr (.inl ⟨record, rest, hpending, rfl, rfl⟩)
      · exact .inr (.inr ⟨rfl, rfl⟩)
  | endFlush =>
      refine .inr (.inr ?_)
      unfold step endFlush
      dsimp only
      split <;> exact ⟨rfl, rfl⟩
  | callSink =>
      refine .inr (.inr ?_)
      unfold step callSink
      dsimp only
      split <;> exact ⟨rfl, rfl⟩
  | sinkReturns =>
      refine .inr (.inr ?_)
      unfold step sinkReturns
      dsimp only
      split <;> exact ⟨rfl, rfl⟩
  | sinkThrows =>
      refine .inr (.inr ?_)
      unfold step sinkThrows
      dsimp only
      split <;> exact ⟨rfl, rfl⟩
  | countDrop =>
      refine .inr (.inr ?_)
      unfold step countDrop
      dsimp only
      split <;> exact ⟨rfl, rfl⟩
  | land =>
      refine .inr (.inr ?_)
      unfold step land
      dsimp only
      split <;> exact ⟨rfl, rfl⟩

/-- The step lemma: what is leaked is never given back. -/
theorem Drifted.attempt {drift : Nat} {s : AsyncLogSink κ} (h : Drifted drift s)
    (a : Attempt κ) : Drifted (drift + s.leak a) (s.attempt a) := by
  cases a with
  | enqueue level line memory => exact (h.enqueueOn level line memory).wrote _
  | step action =>
      change Drifted drift (s.step action)
      obtain ⟨level, line, hstep⟩ | ⟨record, rest, hpending, hrest, hbytes⟩ | ⟨hsame, hbytes⟩ :=
        queue_step s action
      · rw [hstep]
        exact (h.enqueueOn level line true).wrote _
      · have hcounted := h.counted
        have hbound := h.bytes
        rw [hpending, lineBytes_cons] at hcounted
        refine ⟨?_, ?_⟩
        · rw [hrest, hbytes]
          omega
        · rw [hbytes]
          omega
      · refine ⟨?_, ?_⟩
        · rw [hsame, hbytes, h.counted]
        · rw [hbytes]
          exact h.bytes

theorem Drifted.runFrom {drift : Nat} {s : AsyncLogSink κ} (h : Drifted drift s)
    (attempts : List (Attempt κ)) :
    Drifted (drift + leaked s attempts) ((allocating κ).runFrom s attempts) := by
  induction attempts generalizing drift s with
  | nil => exact h
  | cons a rest ih =>
      have hrest := ih (h.attempt a)
      rw [Nat.add_assoc] at hrest
      exact hrest

theorem drifted_init : Drifted 0 (allocating κ).init := ⟨rfl, Nat.zero_le _⟩

/-- After every run the counter is above the bytes that wait by what the run has leaked, and
still within its bound, so that much of the queue is gone for good. -/
theorem drifted_run (attempts : List (Attempt κ)) :
    Drifted (leaked (allocating κ).init attempts) ((allocating κ).run attempts) := by
  have hrun := drifted_init.runFrom attempts
  rw [Nat.zero_add] at hrun
  exact hrun

/-- A log that has leaked its whole bound refuses every line with a byte in it. -/
theorem Drifted.full {s : AsyncLogSink κ} (h : Drifted kMaxPendingBytes s) {line : Bytes}
    (hline : line ≠ []) : s.full line = true := by
  have hlength := List.length_pos_iff.mpr hline
  have hcounted := h.counted
  have hbytes := h.bytes
  unfold AsyncLogSink.full
  refine decide_eq_true (.inr ?_)
  omega

/-! ## When the counter is exact -/

/-- The counter is the bytes that wait. -/
def Exact (s : AsyncLogSink κ) : Prop := s.pendingBytes = lineBytes s.pending

/-- A call of `enqueue` that appends nothing counts one drop, and is complete; the queue, its
counter and so its remaining capacity are as they were. -/
def CountsOneDrop (s : AsyncLogSink κ) : Attempt κ → Prop
  | .enqueue level line memory =>
      (s.enqueueOn memory level line).pending = s.pending →
        s.attempt (.enqueue level line memory) =
          { s with dropped := s.dropped + 1, completed := s.completed + 1 }
  | .step _ => True

/-- No `push_back` fails on a line that has room and a byte in it. -/
def Spared (s : AsyncLogSink κ) : Attempt κ → Prop
  | .enqueue _ line memory => memory = false → s.full line = false → line = []
  | .step _ => True

theorem Drifted.exact_iff {drift : Nat} {s : AsyncLogSink κ} (h : Drifted drift s) :
    Exact s ↔ drift = 0 := by
  have hcounted := h.counted
  constructor
  · intro hexact
    rw [hexact] at hcounted
    omega
  · rintro rfl
    exact hcounted

theorem leak_eq_zero_iff (s : AsyncLogSink κ) (a : Attempt κ) : s.leak a = 0 ↔ Spared s a := by
  cases a with
  | step action => exact iff_of_true rfl trivial
  | enqueue level line memory =>
      cases memory with
      | true => exact iff_of_true rfl fun h => absurd h (by simp)
      | false =>
          cases hfull : s.full line with
          | true =>
              exact iff_of_true (if_pos hfull) fun _ h => absurd (hfull.symm.trans h) (by simp)
          | false =>
              have hleak : s.leak (.enqueue level line false) = line.length :=
                if_neg (by rw [hfull]; exact Bool.false_ne_true)
              rw [hleak, List.length_eq_zero_iff]
              exact ⟨fun h _ _ => h, fun h => h rfl hfull⟩

/-- A step that leaks nothing and appends nothing is one drop. -/
theorem countsOneDrop_of_spared {s : AsyncLogSink κ} {a : Attempt κ} (h : Spared s a) :
    CountsOneDrop s a := by
  cases a with
  | step action => trivial
  | enqueue level line memory =>
      intro hpending
      unfold AsyncLogSink.attempt
      unfold enqueueOn at hpending ⊢
      dsimp only
      cases hfull : s.full line with
      | true => rw [if_pos rfl, wrote_dropped]
      | false =>
          rw [hfull, if_neg Bool.false_ne_true] at hpending
          rw [if_neg Bool.false_ne_true]
          cases memory with
          | true =>
              have hlength := congrArg List.length hpending
              dsimp only at hlength
              rw [if_pos rfl, List.length_append, List.length_singleton] at hlength
              omega
          | false =>
              have hline := h rfl hfull
              subst hline
              exact wrote_dropped _ s

/-- The counter is the bytes that wait, and every refused `enqueue` counts one drop and
changes nothing else, in exactly the runs where no `push_back` fails on a line that has
room and a byte in it. -/
theorem exact_iff_spared (attempts : List (Attempt κ)) :
    (allocating κ).Always Exact attempts ∧ (allocating κ).Guarded CountsOneDrop attempts ↔
      (allocating κ).Guarded Spared attempts := by
  refine Machine.alwaysFrom_and_guardedFrom_iff (H := fun _ _ => True)
    (J := fun s => ∃ drift, Drifted drift s) ?_ ?_ (Machine.guardedFrom_true _ attempts)
    ⟨0, drifted_init⟩ drifted_init.counted
  · rintro s a ⟨drift, hdrift⟩ _
    exact ⟨_, hdrift.attempt a⟩
  · rintro s a ⟨drift, hdrift⟩ _ hexact
    have hnow : drift = 0 := hdrift.exact_iff.mp hexact
    have hnext : Exact (s.attempt a) ↔ drift + s.leak a = 0 := (hdrift.attempt a).exact_iff
    rw [hnow, Nat.zero_add, leak_eq_zero_iff] at hnext
    exact ⟨fun h => hnext.mp h.1, fun h => ⟨hnext.mpr h, countsOneDrop_of_spared h⟩⟩

/-- Records of one byte each, all waiting, until a `push_back` has to allocate and finds no
memory.  In libstdc++ it is the twelfth: its record fills the node of the deque that the
constructor had allocated. -/
def failedPush : List (Attempt Nat) :=
  List.replicate 11 (.enqueue .warn [1] true) ++ [.enqueue .warn [1] false]

theorem exact_failedPush :
    ¬ (allocating Nat).Always Exact failedPush ∧
      ¬ (allocating Nat).Guarded CountsOneDrop failedPush ∧
      lineBytes ((allocating Nat).run failedPush).pending = 11 ∧
      ((allocating Nat).run failedPush).pendingBytes = 12 := by
  have hbytes : ((allocating Nat).run failedPush).pendingBytes = 12 := by decide +kernel
  have hlines : lineBytes ((allocating Nat).run failedPush).pending = 11 := by decide +kernel
  refine ⟨fun h => ?_, fun h => ?_, hlines, hbytes⟩
  · have hexact : ((allocating Nat).run failedPush).pendingBytes =
      lineBytes ((allocating Nat).run failedPush).pending := h.last
    rw [hbytes, hlines] at hexact
    exact absurd hexact (by decide)
  · -- what the last call should have left: the counter as it was before it
    have hlast := (Machine.guardedFrom_append.mp h).2.1 rfl
    have hcounter := congrArg AsyncLogSink.pendingBytes hlast
    exact absurd hcounter (by decide +kernel)

end AsyncLogSink

end Motus.Logger
