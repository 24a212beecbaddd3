import Motus.Logger.AsyncLogSink
import Motus.Foundation.Refinement

set_option autoImplicit false

/-!
# Waiting and waking in the log

`AsyncLogSink` lets the worker take a record whenever there is one, and a `flush` return
whenever the sink is drained.  In the code both block on a condition variable and have to
be notified: the worker on `_changed`, by `enqueue` once it has given the lock back, the
flushing threads on `_drained`, by the worker.  Here a blocked thread stays blocked until
it is notified or wakes up spuriously, and tests its condition again before it goes on.
-/

namespace Motus.Logger

open Motus.Foundation Motus.Transport

/-- The steps the worker has left before it waits again. -/
def Worker.left {κ : Type} : Worker κ → Nat
  | .waiting => 0
  | .over => 1
  | .threw => 2
  | .calling _ _ => 3
  | .took _ => 4

/-- The log together with its blocked threads. -/
structure Waiters (κ : Type) where
  log : AsyncLogSink κ := {}
  /-- the worker is blocked in `_changed.wait` -/
  blocked : Bool := false
  /-- calls of `enqueue` that have added a record and not called `notify_one` yet -/
  notifying : Nat := 0
  /-- the threads of `flush` that are blocked in `_drained.wait` -/
  sleeping : Nat := 0

/-- A step of one thread. -/
inductive Event (κ : Type) where
  | write (stamp : Bytes) (level : LogLevel) (message : Bytes)
  /-- the end of an `enqueue` that has added its record -/
  | notifyChanged
  | setSink (sink : Option κ)
  | beginFlush
  /-- a thread of `flush` holds the lock and tests what it waits for -/
  | testDrained
  | spuriousDrained
  /-- so does the worker -/
  | testChanged
  | spuriousChanged
  | callSink
  | sinkReturns
  | sinkThrows
  | countDrop
  | land

namespace Waiters

variable {κ : Type}

/-- A step of the log that wakes nobody. -/
def onLog (f : AsyncLogSink κ → AsyncLogSink κ) (s : Waiters κ) : Waiters κ :=
  { s with log := f s.log }

/-- `enqueue` returns before `notify_one` when it has dropped the record. -/
def write (stamp : Bytes) (level : LogLevel) (message : Bytes) (s : Waiters κ) : Waiters κ :=
  { s with
    log := s.log.step (.write stamp level message)
    notifying := if (s.log.write stamp level message).dropped = s.log.dropped then s.notifying + 1
      else s.notifying }

/-- `_changed.notify_one()`: the worker is the only thread that waits there. -/
def notifyChanged (s : Waiters κ) : Waiters κ :=
  if 0 < s.notifying then { s with notifying := s.notifying - 1, blocked := false } else s

/-- The threads of `flush` that run. -/
def awake (s : Waiters κ) : Nat := s.log.flushing - s.sleeping

/-- `_drained.wait` returns, or blocks again. -/
def testDrained (s : Waiters κ) : Waiters κ :=
  if 0 < s.awake then
    if s.log.drained then { s with log := s.log.endFlush }
    else { s with sleeping := s.sleeping + 1 }
  else s

/-- The worker is in `_changed.wait` and not blocked. -/
def testing (s : Waiters κ) : Bool := s.log.worker.isWaiting && !s.blocked

/-- `_changed.wait` returns and the worker takes a record, or it blocks again. -/
def testChanged (s : Waiters κ) : Waiters κ :=
  if s.testing then
    if s.log.pending.isEmpty then { s with blocked := true } else { s with log := s.log.take }
  else s

/-- The last critical section of the loop, with `_drained.notify_all()`. -/
def land (s : Waiters κ) : Waiters κ :=
  match s.log.worker with
  | .over => { s with
      log := s.log.land, sleeping := if s.log.pending.isEmpty then 0 else s.sleeping }
  | _ => s

/-- What one event does to the log and to those who wait. -/
def step (s : Waiters κ) : Event κ → Waiters κ
  | .write stamp level message => s.write stamp level message
  | .notifyChanged => s.notifyChanged
  | .setSink sink => s.onLog (·.setSink sink)
  | .beginFlush => s.onLog (·.beginFlush)
  | .testDrained => s.testDrained
  | .spuriousDrained => { s with sleeping := s.sleeping - 1 }
  | .testChanged => s.testChanged
  | .spuriousChanged => { s with blocked := false }
  | .callSink => s.onLog (·.callSink)
  | .sinkReturns => s.onLog (·.sinkReturns)
  | .sinkThrows => s.onLog (·.sinkThrows)
  | .countDrop => s.onLog (·.countDrop)
  | .land => s.land

/-- The log with its waiting threads. -/
def machine (κ : Type) : Machine (Waiters κ) (Event κ) where
  init := {}
  step := step

/-! ## The log without its condition variables -/

/-- The step of the log that a step of a thread is, if it is one. -/
def image (s : Waiters κ) : Event κ → Option (Action κ)
  | .write stamp level message => some (.write stamp level message)
  | .setSink sink => some (.setSink sink)
  | .beginFlush => some .beginFlush
  | .testDrained => if 0 < s.awake then some .endFlush else none
  | .testChanged => if s.testing then some .take else none
  | .callSink => some .callSink
  | .sinkReturns => some .sinkReturns
  | .sinkThrows => some .sinkThrows
  | .countDrop => some .countDrop
  | .land => some .land
  | .notifyChanged | .spuriousDrained | .spuriousChanged => none

theorem take_of_empty {s : AsyncLogSink κ} (h : s.pending.isEmpty = true) : s.take = s := by
  rw [List.isEmpty_iff] at h
  unfold AsyncLogSink.take
  rw [h]
  cases s.worker <;> rfl

theorem endFlush_of_not_drained {s : AsyncLogSink κ} (h : s.drained = false) :
    s.endFlush = s := by
  unfold AsyncLogSink.endFlush
  rw [if_neg fun hboth => absurd (h.symm.trans hboth.2) Bool.false_ne_true]

/-- Blocking and waking only leaves steps of the log out. -/
theorem refines : (machine κ).Refines (AsyncLogSink.machine κ) Waiters.log image where
  init := rfl
  step s event := by
    cases event with
    | testDrained =>
        change s.testDrained.log = _
        unfold testDrained image
        by_cases hawake : 0 < s.awake
        · rw [if_pos hawake, if_pos hawake]
          cases hdrained : s.log.drained with
          | true => rfl
          | false => exact (endFlush_of_not_drained hdrained).symm
        · rw [if_neg hawake, if_neg hawake]
          rfl
    | testChanged =>
        change s.testChanged.log = _
        unfold testChanged image
        by_cases htesting : s.testing = true
        · rw [if_pos htesting, if_pos htesting]
          cases hempty : s.log.pending.isEmpty with
          | true => exact (take_of_empty hempty).symm
          | false => rfl
        · rw [if_neg htesting, if_neg htesting]
          rfl
    | notifyChanged =>
        change s.notifyChanged.log = s.log
        unfold notifyChanged
        split <;> rfl
    | land =>
        change s.land.log = s.log.land
        unfold land AsyncLogSink.land
        cases s.log.worker <;> rfl
    | write stamp level message => rfl
    | setSink sink => rfl
    | beginFlush => rfl
    | spuriousDrained => rfl
    | spuriousChanged => rfl
    | callSink => rfl
    | sinkReturns => rfl
    | sinkThrows => rfl
    | countDrop => rfl

/-- So the log goes through a run of `AsyncLogSink`, and the callers can rely on what they
can rely on there. -/
theorem waits_refine (events : List (Event κ)) :
    ((machine κ).run events).log =
        (AsyncLogSink.machine κ).run ((machine κ).images image {} events) ∧
      (machine κ).Always (fun s => s.log.Kept) events := by
  have hsound : ∀ actions, (AsyncLogSink.machine κ).Always AsyncLogSink.Sound actions :=
    fun actions => .of_step actions (fun _ a h => h.step a) AsyncLogSink.sound_init
  have hkept : ∀ actions, (AsyncLogSink.machine κ).Always AsyncLogSink.Kept actions :=
    fun actions => (hsound actions).mono fun _ h => h.kept
  exact ⟨refines.run events, refines.always hkept events⟩

/-! ## No wake-up is lost -/

/-- What every step keeps: a thread is blocked only while there is nothing for it to do,
or a notification is on its way. -/
structure Alert (s : Waiters κ) : Prop where
  sound : s.log.Sound
  waiting : s.blocked = true → s.log.worker.isWaiting = true
  noticed : s.blocked = true → s.log.pending ≠ [] → 0 < s.notifying
  undrained : 0 < s.sleeping → s.log.drained = false
  sleepers : s.sleeping ≤ s.log.flushing

theorem alert_init : Alert (machine κ).init where
  sound := AsyncLogSink.sound_init
  waiting := fun h => absurd h Bool.false_ne_true
  noticed := fun h => absurd h Bool.false_ne_true
  undrained := fun h => absurd h (Nat.lt_irrefl 0)
  sleepers := le_rfl

/-- A dropped record is pending nowhere, an accepted one is pending and notified about. -/
theorem Alert.write {s : Waiters κ} (h : Alert s) (stamp : Bytes) (level : LogLevel)
    (message : Bytes) : Alert (s.write stamp level message) := by
  have hsound := h.sound.step (.write stamp level message)
  unfold Waiters.write
  unfold AsyncLogSink.step at hsound ⊢
  dsimp only at hsound ⊢
  cases hfull : s.log.full (AsyncLogSink.logLine stamp level message) with
  | true =>
      have hrun : s.log.write stamp level message = { s.log with dropped := s.log.dropped + 1 } :=
        if_pos hfull
      rw [hrun, AsyncLogSink.wrote_dropped] at hsound ⊢
      rw [if_neg (Nat.succ_ne_self s.log.dropped)]
      exact ⟨hsound, h.waiting, h.noticed, h.undrained, h.sleepers⟩
  | false =>
      have hrun : s.log.write stamp level message = { s.log with
          pendingBytes := s.log.pendingBytes + (AsyncLogSink.logLine stamp level message).length
          pending := s.log.pending ++ [⟨level, AsyncLogSink.logLine stamp level message⟩] } :=
        if_neg (by rw [hfull]; exact Bool.false_ne_true)
      rw [hrun, AsyncLogSink.wrote_accepted _ (by rfl)] at hsound ⊢
      rw [if_pos rfl]
      refine ⟨hsound, h.waiting, fun _ _ => Nat.succ_pos _, fun _ => ?_, h.sleepers⟩
      unfold AsyncLogSink.drained
      simp

theorem Alert.notifyChanged {s : Waiters κ} (h : Alert s) : Alert s.notifyChanged := by
  unfold Waiters.notifyChanged
  split
  · exact ⟨h.sound, fun hblocked => absurd hblocked Bool.false_ne_true,
      fun hblocked => absurd hblocked Bool.false_ne_true, h.undrained, h.sleepers⟩
  · exact h

/-- A step of the log that neither fills nor drains it, and does not take the worker out
of `_changed.wait`. -/
structure Passes (log log' : AsyncLogSink κ) : Prop where
  pending : log'.pending = log.pending
  flag : log'.inFlight = log.inFlight
  waiting : log.worker.isWaiting = true → log'.worker.isWaiting = true
  flushing : log.flushing ≤ log'.flushing

theorem Passes.refl (log : AsyncLogSink κ) : Passes log log := ⟨rfl, rfl, id, le_rfl⟩

theorem passes_callSink (log : AsyncLogSink κ) : Passes log log.callSink := by
  unfold AsyncLogSink.callSink
  split
  · next hworker => exact ⟨rfl, rfl, fun h => by rw [hworker] at h; exact h, le_rfl⟩
  · exact Passes.refl log

theorem passes_sinkReturns (log : AsyncLogSink κ) : Passes log log.sinkReturns := by
  unfold AsyncLogSink.sinkReturns
  split
  · next hworker => exact ⟨rfl, rfl, fun h => by rw [hworker] at h; exact h, le_rfl⟩
  · exact Passes.refl log

theorem passes_sinkThrows (log : AsyncLogSink κ) : Passes log log.sinkThrows := by
  unfold AsyncLogSink.sinkThrows
  split
  · next hworker => exact ⟨rfl, rfl, fun h => by rw [hworker] at h; exact h, le_rfl⟩
  · exact Passes.refl log

theorem passes_countDrop (log : AsyncLogSink κ) : Passes log log.countDrop := by
  unfold AsyncLogSink.countDrop
  split
  · next hworker => exact ⟨rfl, rfl, fun h => by rw [hworker] at h; exact h, le_rfl⟩
  · exact Passes.refl log

theorem Alert.pass {s : Waiters κ} (h : Alert s) {log : AsyncLogSink κ} (hsound : log.Sound)
    (hpasses : Passes s.log log) : Alert { s with log := log } := by
  refine ⟨hsound, fun hblocked => hpasses.waiting (h.waiting hblocked),
    fun hblocked hfull => ?_, fun hsleeping => ?_, h.sleepers.trans hpasses.flushing⟩
  · rw [hpasses.pending] at hfull
    exact h.noticed hblocked hfull
  · unfold AsyncLogSink.drained
    rw [hpasses.pending, hpasses.flag]
    exact h.undrained hsleeping

theorem Alert.testDrained {s : Waiters κ} (h : Alert s) : Alert s.testDrained := by
  unfold Waiters.testDrained
  split
  · next hawake =>
    unfold awake at hawake
    split
    · next hdrained =>
        have hsound : s.log.endFlush.Sound := h.sound.step .endFlush
        have hreturns : 0 < s.log.flushing ∧ s.log.drained = true := ⟨by omega, hdrained⟩
        unfold AsyncLogSink.endFlush at hsound ⊢
        rw [if_pos hreturns] at hsound ⊢
        refine ⟨hsound, h.waiting, h.noticed, h.undrained, ?_⟩
        dsimp only
        omega
    · next hnot =>
        refine ⟨h.sound, h.waiting, h.noticed, fun _ => Bool.eq_false_iff.mpr hnot, ?_⟩
        dsimp only
        omega
  · exact h

theorem Alert.testChanged {s : Waiters κ} (h : Alert s) : Alert s.testChanged := by
  unfold Waiters.testChanged
  split
  · next htesting =>
    unfold testing at htesting
    rw [Bool.and_eq_true, Bool.not_eq_true'] at htesting
    split
    · next hempty =>
        refine ⟨h.sound, fun _ => htesting.1, fun _ hpending => ?_, h.undrained, h.sleepers⟩
        exact absurd (List.isEmpty_iff.mp hempty) hpending
    · -- with a record taken the sink is not drained, and the worker is not blocked
      have htaken : s.log.take.flushing = s.log.flushing ∧
          (s.log.drained = false → s.log.take.drained = false) := by
        unfold AsyncLogSink.take
        split
        · exact ⟨rfl, fun _ => Bool.and_false _⟩
        · exact ⟨rfl, id⟩
      refine ⟨h.sound.take, fun hblocked => ?_, fun hblocked => ?_, fun hsleeping => ?_, ?_⟩
      · exact absurd (htesting.2.symm.trans hblocked) Bool.false_ne_true
      · exact absurd (htesting.2.symm.trans hblocked) Bool.false_ne_true
      · exact htaken.2 (h.undrained hsleeping)
      · exact htaken.1.symm ▸ h.sleepers
  · exact h

/-- The worker wakes every sleeper when it leaves the sink drained. -/
theorem Alert.land {s : Waiters κ} (h : Alert s) : Alert s.land := by
  have hsound : s.log.land.Sound := h.sound.land
  unfold Waiters.land
  split
  · next hworker =>
    have hland : s.log.land = { s.log with worker := .waiting, inFlight := false } := by
      unfold AsyncLogSink.land
      rw [hworker]
    rw [hland] at hsound ⊢
    refine ⟨hsound, fun _ => rfl, h.noticed, fun hsleeping => ?_, ?_⟩
    · cases hempty : s.log.pending.isEmpty with
      | true =>
          dsimp only at hsleeping
          rw [hempty, if_pos rfl] at hsleeping
          exact absurd hsleeping (Nat.lt_irrefl 0)
      | false =>
          unfold AsyncLogSink.drained
          dsimp only
          rw [hempty]
          rfl
    · dsimp only
      split
      · exact Nat.zero_le _
      · exact h.sleepers
  · exact h

/-- The step lemma. -/
theorem Alert.step {s : Waiters κ} (h : Alert s) (event : Event κ) : Alert (s.step event) := by
  cases event with
  | write stamp level message => exact h.write stamp level message
  | notifyChanged => exact h.notifyChanged
  | testDrained => exact h.testDrained
  | testChanged => exact h.testChanged
  | land => exact h.land
  | setSink sink => exact h.pass (h.sound.step (.setSink sink)) ⟨rfl, rfl, id, le_rfl⟩
  | beginFlush => exact h.pass (h.sound.step .beginFlush) ⟨rfl, rfl, id, Nat.le_succ _⟩
  | spuriousDrained =>
      refine ⟨h.sound, h.waiting, h.noticed, fun hsleeping => h.undrained ?_, ?_⟩
      · exact hsleeping.trans_le (Nat.sub_le _ _)
      · exact (Nat.sub_le _ _).trans h.sleepers
  | spuriousChanged =>
      exact ⟨h.sound, fun hblocked => absurd hblocked Bool.false_ne_true,
        fun hblocked => absurd hblocked Bool.false_ne_true, h.undrained, h.sleepers⟩
  | callSink => exact h.pass h.sound.callSink (passes_callSink s.log)
  | sinkReturns => exact h.pass h.sound.sinkReturns (passes_sinkReturns s.log)
  | sinkThrows => exact h.pass h.sound.sinkThrows (passes_sinkThrows s.log)
  | countDrop => exact h.pass h.sound.countDrop (passes_countDrop s.log)

theorem always_alert (events : List (Event κ)) : (machine κ).Always Alert events :=
  .of_step events (fun _ event h => h.step event) alert_init

/-! ## Every `flush` returns

No thread but the worker, the callers that are about to notify it and the threads of
`flush` is looked at: what they do is finished after finitely many steps, and they stop
nowhere before. -/

/-- A running thread is at this step.  New calls and spurious wake-ups come from outside. -/
def enabled (s : Waiters κ) : Event κ → Bool
  | .notifyChanged => decide (0 < s.notifying)
  | .testDrained => decide (0 < s.awake)
  | .testChanged => s.testing
  | .callSink => decide (s.log.worker.left = 4)
  | .sinkReturns | .sinkThrows => decide (s.log.worker.left = 3)
  | .countDrop => decide (s.log.worker.left = 2)
  | .land => decide (s.log.worker.left = 1)
  | .write _ _ _ | .setSink _ | .beginFlush | .spuriousDrained | .spuriousChanged => false

/-- One of the threads goes on. -/
def Goes (s s' : Waiters κ) : Prop := ∃ event, s.enabled event = true ∧ s' = s.step event

/-- The steps that the worker has left to do for its records. -/
def work (s : Waiters κ) : Nat := 5 * s.log.pending.length + s.log.worker.left

/-- The tests and notifications that come between two of those steps. -/
def unrest (s : Waiters κ) : Nat := 2 * s.notifying + (if s.testing then 1 else 0) + s.awake

/-- A step of the worker with a record in its hands. -/
theorem work_onLog {f : AsyncLogSink κ → AsyncLogSink κ} {s : Waiters κ}
    (hpending : (f s.log).pending = s.log.pending)
    (hleft : (f s.log).worker.left < s.log.worker.left) : (s.onLog f).work < s.work := by
  unfold work onLog
  dsimp only
  rw [hpending]
  omega

/-- A notification is given, and the worker may have to test again. -/
theorem notifyChanged_decreases {s : Waiters κ} (h : 0 < s.notifying) :
    s.notifyChanged.work = s.work ∧ s.notifyChanged.unrest < s.unrest := by
  unfold notifyChanged
  rw [if_pos h]
  refine ⟨rfl, ?_⟩
  unfold unrest awake testing
  dsimp only
  split <;> split <;> omega

/-- A thread of `flush` returns or goes to sleep. -/
theorem testDrained_decreases {s : Waiters κ} (h : 0 < s.awake) :
    s.testDrained.work = s.work ∧ s.testDrained.unrest < s.unrest := by
  unfold testDrained
  rw [if_pos h]
  unfold awake at h
  split
  · next hdrained =>
      have hreturns : 0 < s.log.flushing ∧ s.log.drained = true := ⟨by omega, hdrained⟩
      unfold AsyncLogSink.endFlush
      rw [if_pos hreturns]
      refine ⟨rfl, ?_⟩
      unfold unrest awake testing
      dsimp only
      omega
  · refine ⟨rfl, ?_⟩
    unfold unrest awake testing
    dsimp only
    omega

/-- The worker goes to sleep, or takes the record it found. -/
theorem testChanged_decreases {s : Waiters κ} (h : s.testing = true) :
    s.testChanged.work < s.work ∨
      s.testChanged.work = s.work ∧ s.testChanged.unrest < s.unrest := by
  have hworker : s.log.worker.isWaiting = true := by
    unfold testing at h
    rw [Bool.and_eq_true] at h
    exact h.1
  unfold testChanged
  rw [if_pos h]
  cases hpending : s.log.pending with
  | nil =>
      rw [List.isEmpty_nil, if_pos rfl]
      refine .inr ⟨rfl, ?_⟩
      unfold unrest awake
      rw [h, if_pos rfl]
      unfold testing
      dsimp only
      rw [Bool.not_true, Bool.and_false, if_neg Bool.false_ne_true]
      omega
  | cons record rest =>
      left
      have htake : s.log.take.pending = rest ∧ s.log.take.worker.left = 4 := by
        unfold AsyncLogSink.take
        rw [hpending]
        cases hw : s.log.worker with
        | waiting => exact ⟨rfl, rfl⟩
        | _ => rw [hw] at hworker; exact absurd hworker Bool.false_ne_true
      unfold work
      dsimp only [List.isEmpty_cons]
      rw [if_neg Bool.false_ne_true, htake.1, htake.2, hpending, List.length_cons]
      omega

/-- The worker has one step less to go after each of its own. -/
theorem left_callSink {log : AsyncLogSink κ} (h : log.worker.left = 4) :
    log.callSink.worker.left < log.worker.left := by
  unfold AsyncLogSink.callSink
  cases hworker : log.worker with
  | took record => exact Nat.lt_succ_self 3
  | _ => rw [hworker] at h; exact absurd h (by simp [Worker.left])

theorem left_sinkReturns {log : AsyncLogSink κ} (h : log.worker.left = 3) :
    log.sinkReturns.worker.left < log.worker.left := by
  unfold AsyncLogSink.sinkReturns
  cases hworker : log.worker with
  | calling record sink => simp [Worker.left]
  | _ => rw [hworker] at h; exact absurd h (by simp [Worker.left])

theorem left_sinkThrows {log : AsyncLogSink κ} (h : log.worker.left = 3) :
    log.sinkThrows.worker.left < log.worker.left := by
  unfold AsyncLogSink.sinkThrows
  cases hworker : log.worker with
  | calling record sink => simp [Worker.left]
  | _ => rw [hworker] at h; exact absurd h (by simp [Worker.left])

theorem left_countDrop {log : AsyncLogSink κ} (h : log.worker.left = 2) :
    log.countDrop.worker.left < log.worker.left := by
  unfold AsyncLogSink.countDrop
  cases hworker : log.worker with
  | threw => simp [Worker.left]
  | _ => rw [hworker] at h; exact absurd h (by simp [Worker.left])

/-- The worker goes back to its wait. -/
theorem land_decreases {s : Waiters κ} (h : s.log.worker.left = 1) : s.land.work < s.work := by
  have hworker : s.log.worker = .over := by
    cases hworker : s.log.worker with
    | waiting => rw [hworker] at h; exact absurd h (by simp [Worker.left])
    | took record => rw [hworker] at h; exact absurd h (by simp [Worker.left])
    | calling record sink => rw [hworker] at h; exact absurd h (by simp [Worker.left])
    | threw => rw [hworker] at h; exact absurd h (by simp [Worker.left])
    | _ => rfl
  unfold Waiters.land AsyncLogSink.land work
  rw [hworker]
  simp [Worker.left]

/-- The step lemma: work gets done, or a test or notification less is left. -/
theorem goes_decreases {s s' : Waiters κ} (h : s.Goes s') :
    s'.work < s.work ∨ s'.work = s.work ∧ s'.unrest < s.unrest := by
  obtain ⟨event, henabled, rfl⟩ := h
  cases event with
  | notifyChanged => exact .inr (notifyChanged_decreases (of_decide_eq_true henabled))
  | testDrained => exact .inr (testDrained_decreases (of_decide_eq_true henabled))
  | testChanged => exact testChanged_decreases henabled
  | callSink =>
      exact .inl (work_onLog (passes_callSink s.log).pending
        (left_callSink (of_decide_eq_true henabled)))
  | sinkReturns =>
      exact .inl (work_onLog (passes_sinkReturns s.log).pending
        (left_sinkReturns (of_decide_eq_true henabled)))
  | sinkThrows =>
      exact .inl (work_onLog (passes_sinkThrows s.log).pending
        (left_sinkThrows (of_decide_eq_true henabled)))
  | countDrop =>
      exact .inl (work_onLog (passes_countDrop s.log).pending
        (left_countDrop (of_decide_eq_true henabled)))
  | land => exact .inl (land_decreases (of_decide_eq_true henabled))
  | _ => exact absurd henabled Bool.false_ne_true

/-- What the threads do comes to an end. -/
theorem goes_wellFounded : WellFounded fun s' s : Waiters κ => s.Goes s' := by
  refine Subrelation.wf (r := InvImage (Prod.Lex (· < ·) (· < ·)) fun s => (s.work, s.unrest)) ?_
    (InvImage.wf _ (WellFounded.prod_lex wellFounded_lt wellFounded_lt))
  intro s' s hgoes
  rcases goes_decreases hgoes with hless | ⟨hsame, hless⟩
  · exact Prod.Lex.left _ _ hless
  · unfold InvImage
    dsimp only
    rw [hsame]
    exact Prod.Lex.right _ hless

/-- Nothing is pending, every accepted record has been through the sink in its order, and
no thread is in `flush`. -/
structure Rested (s : Waiters κ) : Prop where
  pending : s.log.pending = []
  delivered : s.log.calls.map Prod.fst = s.log.accepted
  flushing : s.log.flushing = 0

/-- When no thread can go on, there is nothing left for one to do. -/
theorem Alert.rested {s : Waiters κ} (h : Alert s) (hstuck : ∀ event, s.enabled event = false) :
    Rested s := by
  have hnever : ∀ {n : Nat} (event : Event κ), s.enabled event = decide (s.log.worker.left = n) →
      s.log.worker.left ≠ n := fun _ heq => of_decide_eq_false (heq.symm.trans (hstuck _))
  have hworker : s.log.worker.isWaiting = true := by
    cases hworker : s.log.worker with
    | waiting => rfl
    | took record => exact absurd (congrArg Worker.left hworker) (hnever .callSink rfl)
    | calling record sink =>
        exact absurd (congrArg Worker.left hworker) (hnever .sinkReturns rfl)
    | threw => exact absurd (congrArg Worker.left hworker) (hnever .countDrop rfl)
    | _ => exact absurd (congrArg Worker.left hworker) (hnever .land rfl)
  have hblocked : s.blocked = true := by
    have htesting : s.testing = false := hstuck .testChanged
    unfold testing at htesting
    rw [hworker, Bool.true_and, Bool.not_eq_false'] at htesting
    exact htesting
  have hnotifying : ¬ 0 < s.notifying := of_decide_eq_false (hstuck .notifyChanged)
  have hpending : s.log.pending = [] := by
    by_contra hfull
    exact hnotifying (h.noticed hblocked hfull)
  have hflag : s.log.inFlight = false := by
    rw [h.sound.flag, hworker]
    rfl
  have hawake : ¬ 0 < s.log.flushing - s.sleeping := of_decide_eq_false (hstuck .testDrained)
  refine ⟨hpending, ?_, ?_⟩
  · have hheld : s.log.worker.held = [] := by
      cases hw : s.log.worker with
      | took record => rw [hw] at hworker; exact absurd hworker Bool.false_ne_true
      | _ => rfl
    rw [h.sound.order, hheld, hpending, List.append_nil, List.append_nil]
  · -- a sleeper would have been woken when the sink was drained
    have hdrained : s.log.drained = true := by
      unfold AsyncLogSink.drained
      rw [hpending, hflag]
      rfl
    have hsleeping : ¬ 0 < s.sleeping := fun hsleeping =>
      absurd (hdrained.symm.trans (h.undrained hsleeping)) (by decide)
    omega

/-- The accepted records, and the calls of `flush` whether they have returned or not. -/
def begun (s : Waiters κ) : List Record × Nat := (s.log.accepted, s.log.flushed + s.log.flushing)

/-- The threads add to neither as they go on. -/
theorem begun_goes {s s' : Waiters κ} (h : s.Goes s') : s'.begun = s.begun := by
  obtain ⟨event, henabled, rfl⟩ := h
  cases event with
  | notifyChanged =>
      unfold step notifyChanged
      dsimp only
      split <;> rfl
  | testDrained =>
      unfold step testDrained AsyncLogSink.endFlush begun
      dsimp only
      split
      · split
        · split
          · next hreturns =>
              dsimp only
              rw [Prod.mk.injEq]
              exact ⟨rfl, by omega⟩
          · rfl
        · rfl
      · rfl
  | testChanged =>
      unfold step testChanged AsyncLogSink.take begun
      dsimp only
      split
      · split
        · rfl
        · split <;> rfl
      · rfl
  | callSink =>
      unfold step onLog AsyncLogSink.callSink begun
      dsimp only
      split <;> rfl
  | sinkReturns =>
      unfold step onLog AsyncLogSink.sinkReturns begun
      dsimp only
      split <;> rfl
  | sinkThrows =>
      unfold step onLog AsyncLogSink.sinkThrows begun
      dsimp only
      split <;> rfl
  | countDrop =>
      unfold step onLog AsyncLogSink.countDrop begun
      dsimp only
      split <;> rfl
  | land =>
      unfold step Waiters.land AsyncLogSink.land begun
      dsimp only
      split
      · split <;> rfl
      · rfl
  | _ => exact absurd henabled Bool.false_ne_true

/-- From every state of every interleaving: once no new calls come, the threads stop after
finitely many steps in whatever order they take them, and wherever they stop every record
that was accepted has been through the sink and every `flush` has returned. -/
theorem flushes_return (events : List (Event κ)) :
    (WellFounded fun s' s : Waiters κ => s.Goes s') ∧
      ∀ s', Relation.ReflTransGen Goes ((machine κ).run events) s' →
        s'.begun = ((machine κ).run events).begun ∧ ((∃ s'', s'.Goes s'') ∨ Rested s') := by
  refine ⟨goes_wellFounded, fun s' hgoes => ?_⟩
  have hkept : s'.begun = ((machine κ).run events).begun ∧ Alert s' := by
    induction hgoes with
    | refl => exact ⟨rfl, (always_alert events).last⟩
    | tail _ hlast ih =>
        refine ⟨(begun_goes hlast).trans ih.1, ?_⟩
        obtain ⟨event, -, rfl⟩ := hlast
        exact ih.2.step event
  refine ⟨hkept.1, ?_⟩
  by_cases hstuck : ∀ event, s'.enabled event = false
  · exact .inr (hkept.2.rested hstuck)
  · rw [not_forall] at hstuck
    obtain ⟨event, henabled⟩ := hstuck
    exact .inl ⟨_, event, Bool.eq_true_of_not_eq_false henabled, rfl⟩

/-- A record is written while the worker sleeps, and the thread that flushes it goes to
sleep before the worker wakes. -/
example : ((machine Nat).run [.testChanged, .write [] .warn [1], .beginFlush, .testDrained,
    .notifyChanged, .testChanged, .callSink, .sinkReturns, .land,
    .testDrained]).log.flushed = 1 := by
  decide +kernel

end Waiters

end Motus.Logger
