import Motus.Transport.Seam
import Motus.Foundation.Machine

set_option autoImplicit false

/-!
# Backing off between attempts

Both AMQP transports keep a policy, a count of failed attempts and the time of the next
one, and do with these what `Backoff.serve` says.  `Lawful` says what a policy promises
of the attempts that are made under it; the attempts are lawful as long as the delays
and the times they lead to can be represented.
-/

namespace Motus.Transport

open Motus.Foundation

/-! ## The delays -/

namespace ReconnectPolicy

/-- The delay that doubles with each failed attempt, up to the highest one. -/
def doubled (policy : ReconnectPolicy) (failedAttempts : Nat) : Nat :=
  min policy.maxDelay (policy.initialDelay * 2 ^ (failedAttempts - 1))

/-- The shift of the delay has a result, and it is not negative. -/
def Shifts (policy : ReconnectPolicy) (failedAttempts : Nat) : Prop :=
  failedAttempts - 1 < 64 ∧ policy.initialDelay * 2 ^ (failedAttempts - 1) < 2 ^ 63

instance (policy : ReconnectPolicy) (failedAttempts : Nat) :
    Decidable (policy.Shifts failedAttempts) :=
  inferInstanceAs (Decidable (_ ∧ _))

theorem doubled_le (policy : ReconnectPolicy) (failedAttempts : Nat) :
    policy.doubled failedAttempts ≤ policy.maxDelay :=
  Nat.min_le_left _ _

theorem doubled_mono (policy : ReconnectPolicy) {k k' : Nat} (h : k ≤ k') :
    policy.doubled k ≤ policy.doubled k' := by
  have hpower : 2 ^ (k - 1) ≤ 2 ^ (k' - 1) := Nat.pow_le_pow_right (by decide) (by omega)
  have hproduct := Nat.mul_le_mul_left policy.initialDelay hpower
  unfold doubled
  omega

end ReconnectPolicy

/-- The shift of a 64-bit count multiplies when the product is in the signed range. -/
theorem shiftLeft_eq_mul {count shift : Nat} (hshift : shift < 64)
    (hsmall : count * 2 ^ shift < 2 ^ 63) (undefined : Int) :
    shiftLeft count shift undefined = (count * 2 ^ shift : Nat) := by
  unfold shiftLeft
  rw [Nat.shiftLeft_eq, if_pos ⟨hshift, by omega⟩]
  exact Int.bmod_eq_of_le (by omega) (by omega)

/-- Otherwise it can come out negative. -/
theorem exists_shiftLeft_neg {count shift : Nat}
    (h : ¬ (shift < 64 ∧ count * 2 ^ shift < 2 ^ 63)) :
    ∃ undefined, shiftLeft count shift undefined < 0 := by
  unfold shiftLeft
  rw [Nat.shiftLeft_eq]
  by_cases hdefined : shift < 64 ∧ count * 2 ^ shift < 2 ^ 64
  · refine ⟨0, ?_⟩
    rw [if_pos hdefined, Int.bmod_neg _ _ (by omega)]
    omega
  · exact ⟨-1, by rw [if_neg hdefined]; decide⟩

/-- The delay is the doubled one, whatever the language leaves undefined, exactly when
the shift does not overflow. -/
theorem delay_eq_doubled_iff (policy : ReconnectPolicy) (failedAttempts : Nat) :
    (∀ undefined, policy.delay failedAttempts undefined = policy.doubled failedAttempts) ↔
      policy.Shifts failedAttempts := by
  unfold ReconnectPolicy.delay ReconnectPolicy.doubled
  constructor
  · intro h
    by_contra hnot
    obtain ⟨undefined, hneg⟩ := exists_shiftLeft_neg hnot
    have hdelay := h undefined
    omega
  · rintro ⟨hshift, hsmall⟩ undefined
    rw [shiftLeft_eq_mul hshift hsmall undefined]
    omega

theorem addDelay_eq {time delay : Int} (hdelay : isInt64 (delay * 1000000) = true)
    (hsum : isInt64 (time + delay * 1000000) = true) (undefined : Int) :
    addDelay time delay undefined = time + delay * 1000000 := by
  rw [addDelay, if_pos ⟨hdelay, hsum⟩]

/-! ## The attempts -/

/-- How an attempt to reconnect ends: an exception that is not a `std::exception` is
not caught. -/
inductive Outcome where
  | succeeded
  | failed
  | escaped
  deriving DecidableEq, Repr

/-- What one call of `serviceReconnect` meets, as far as the backoff goes. -/
structure Service where
  now : Int
  outcome : Outcome
  later : Int
  shifted : Int
  added : Int

/-- What a transport knows of its attempts. -/
structure Backoff where
  policy : ReconnectPolicy := {}
  failedAttempts : Nat := 0
  nextAttempt : Int := 0

/-- An attempt that was made. -/
structure Attempt where
  /-- how many in a row it is, since one succeeded -/
  number : Nat
  started : Int
  outcome : Outcome
  ended : Int
  /-- the wait that was computed when it failed -/
  delay : Int
  deriving DecidableEq, Repr

namespace Backoff

/-- `serviceReconnect` gets past its checks. -/
def due (b : Backoff) (now : Int) : Bool :=
  b.policy.enabled && !decide (b.policy.maxAttempts ≤ b.failedAttempts) &&
    !decide (now < b.nextAttempt)

/-- The attempt that a call makes. -/
def attempt (b : Backoff) (s : Service) : Attempt where
  number := b.failedAttempts + 1
  started := s.now
  outcome := s.outcome
  ended := s.later
  delay := b.policy.delay (b.failedAttempts + 1) s.shifted

/-- What the attempt leaves. -/
def attempted (b : Backoff) (s : Service) : Backoff :=
  match s.outcome with
  | .succeeded => { b with failedAttempts := 0 }
  | .failed => { b with
      failedAttempts := b.failedAttempts + 1
      nextAttempt := addDelay s.later (b.policy.delay (b.failedAttempts + 1) s.shifted) s.added }
  | .escaped => { b with failedAttempts := b.failedAttempts + 1 }

/-- One call of `serviceReconnect`. -/
def serve (b : Backoff) (s : Service) : Backoff := if b.due s.now then b.attempted s else b

/-- Its checks one after the other. -/
theorem serve_apply (b : Backoff) (s : Service) :
    b.serve s =
      if b.policy.enabled = false then b
      else if b.policy.maxAttempts ≤ b.failedAttempts then b
      else if s.now < b.nextAttempt then b
      else b.attempted s := by
  unfold serve due
  split
  · next hdue =>
      simp only [Bool.and_eq_true, Bool.not_eq_true', decide_eq_false_iff_not] at hdue
      rw [if_neg (by simp [hdue.1.1]), if_neg hdue.1.2, if_neg hdue.2]
  · next hnot =>
      split
      · rfl
      split
      · rfl
      split
      · rfl
      next henabled hleft hwaited =>
        exact absurd (by simp [eq_true_of_ne_false henabled, hleft, hwaited]) hnot

/-- The attempts made in one call. -/
def attempts (b : Backoff) (s : Service) : List Attempt :=
  if b.due s.now then [b.attempt s] else []

/-- If an attempt is made and fails, its delay and the time it leads to can be
represented. -/
def Representable (b : Backoff) (s : Service) : Prop :=
  b.due s.now = true → s.outcome = .failed →
    b.policy.Shifts (b.failedAttempts + 1) ∧
      isInt64 (b.policy.doubled (b.failedAttempts + 1) * 1000000) = true ∧
      isInt64 (s.later + b.policy.doubled (b.failedAttempts + 1) * 1000000) = true

instance (b : Backoff) (s : Service) : Decidable (b.Representable s) :=
  inferInstanceAs (Decidable (_ → _ → _ ∧ _ ∧ _))

end Backoff

/-- The number of the attempt that comes after another one. -/
def Attempt.next (a : Attempt) : Nat :=
  match a.outcome with
  | .succeeded => 1
  | _ => a.number + 1

/-- What a policy promises of the attempts that are made under it. -/
structure Lawful (policy : ReconnectPolicy) (attempts : List Attempt) : Prop where
  /-- attempts are numbered from the last one that succeeded -/
  first : ∀ a ∈ attempts.head?, a.number = 1
  numbered : attempts.IsChain fun a a' => a'.number = a.next
  /-- there are no more of them in a row than the policy allows -/
  bounded : ∀ a ∈ attempts, a.number ≤ policy.maxAttempts
  delayed : ∀ a ∈ attempts, a.outcome = .failed →
    a.delay = min policy.maxDelay (policy.initialDelay * 2 ^ (a.number - 1))
  range : ∀ a ∈ attempts, a.outcome = .failed → 0 ≤ a.delay ∧ a.delay ≤ policy.maxDelay
  /-- the delay never decreases -/
  mono : ∀ a ∈ attempts, ∀ a' ∈ attempts, a.outcome = .failed → a'.outcome = .failed →
    a.number ≤ a'.number → a.delay ≤ a'.delay
  /-- no attempt starts before a failed one and its delay are over -/
  spaced : attempts.IsChain fun a a' =>
    a.outcome = .failed → a.ended + a.delay * 1000000 ≤ a'.started

/-- The ranges and the order of the delays follow from what they are. -/
theorem Lawful.of_delayed {policy : ReconnectPolicy} {attempts : List Attempt}
    (hfirst : ∀ a ∈ attempts.head?, a.number = 1)
    (hnumbered : attempts.IsChain fun a a' => a'.number = a.next)
    (hbounded : ∀ a ∈ attempts, a.number ≤ policy.maxAttempts)
    (hdelayed : ∀ a ∈ attempts, a.outcome = .failed → a.delay = policy.doubled a.number)
    (hspaced : attempts.IsChain fun a a' =>
      a.outcome = .failed → a.ended + a.delay * 1000000 ≤ a'.started) :
    Lawful policy attempts := by
  refine ⟨hfirst, hnumbered, hbounded, fun a ha hfailed => ?_, fun a ha hfailed => ?_,
    fun a ha a' ha' hfailed hfailed' hle => ?_, hspaced⟩
  · rw [hdelayed a ha hfailed, ReconnectPolicy.doubled]
  · have hle := policy.doubled_le a.number
    rw [hdelayed a ha hfailed]
    omega
  · have hmono := policy.doubled_mono hle
    rw [hdelayed a ha hfailed, hdelayed a' ha' hfailed']
    omega

/-- The attempts made since the policy was set, and what the transport knows of them. -/
structure Tracks (b : Backoff) (attempts : List Attempt) : Prop where
  first : ∀ a ∈ attempts.head?, a.number = 1
  numbered : attempts.IsChain fun a a' => a'.number = a.next
  bounded : ∀ a ∈ attempts, a.number ≤ b.policy.maxAttempts
  delayed : ∀ a ∈ attempts, a.outcome = .failed → a.delay = b.policy.doubled a.number
  spaced : attempts.IsChain fun a a' =>
    a.outcome = .failed → a.ended + a.delay * 1000000 ≤ a'.started
  /-- the next attempt will be numbered after the last one -/
  count : b.failedAttempts + 1 = (attempts.getLast?.map Attempt.next).getD 1
  /-- and wait for it -/
  ready : ∀ a ∈ attempts.getLast?, a.outcome = .failed →
    a.ended + a.delay * 1000000 ≤ b.nextAttempt

theorem Tracks.lawful {b : Backoff} {attempts : List Attempt} (h : Tracks b attempts) :
    Lawful b.policy attempts :=
  .of_delayed h.first h.numbered h.bounded h.delayed h.spaced

/-- A policy that has just been set. -/
theorem tracks_set (policy : ReconnectPolicy) : Tracks { policy := policy } [] := by
  refine ⟨?_, .nil, ?_, ?_, .nil, rfl, ?_⟩
  · exact fun a ha => absurd ha (by simp)
  · exact fun a ha => absurd ha List.not_mem_nil
  · exact fun a ha => absurd ha List.not_mem_nil
  · exact fun a ha => absurd ha (by simp)

/-- One more attempt. -/
theorem Tracks.attempted {b : Backoff} {attempts : List Attempt} (h : Tracks b attempts)
    {s : Service} (hdue : b.due s.now = true) (hrepresentable : b.Representable s) :
    Tracks (b.attempted s) (attempts ++ [b.attempt s]) := by
  have hpolicy : (b.attempted s).policy = b.policy := by
    unfold Backoff.attempted
    split <;> rfl
  have hchecks := hdue
  simp only [Backoff.due, Bool.and_eq_true, Bool.not_eq_true', decide_eq_false_iff_not] at hchecks
  obtain ⟨⟨-, hleft⟩, hwaited⟩ := hchecks
  have hdelay : s.outcome = .failed →
      (b.attempt s).delay = b.policy.doubled (b.failedAttempts + 1) := fun hfailed =>
    (delay_eq_doubled_iff b.policy _).mpr (hrepresentable hdue hfailed).1 s.shifted
  have hlast : ∀ a ∈ attempts.getLast?, (b.attempt s).number = a.next := by
    intro a ha
    have hcount := h.count
    rw [Option.mem_def.mp ha] at hcount
    exact hcount
  refine ⟨?_, ?_, ?_, ?_, ?_, ?_, ?_⟩
  · -- the first attempt is numbered from one
    cases attempts with
    | nil =>
        intro a ha
        obtain rfl := Option.some.inj ha
        exact h.count
    | cons first rest => exact h.first
  · refine List.isChain_append.mpr ⟨h.numbered, .singleton _, fun a ha a' ha' => ?_⟩
    obtain rfl := Option.some.inj ha'
    exact hlast a ha
  · rw [hpolicy]
    intro a ha
    rcases List.mem_append.mp ha with ha | ha
    · exact h.bounded a ha
    · rw [List.mem_singleton.mp ha]
      change b.failedAttempts + 1 ≤ b.policy.maxAttempts
      omega
  · rw [hpolicy]
    intro a ha hfailed
    rcases List.mem_append.mp ha with ha | ha
    · exact h.delayed a ha hfailed
    · rw [List.mem_singleton.mp ha] at hfailed ⊢
      exact hdelay hfailed
  · refine List.isChain_append.mpr ⟨h.spaced, .singleton _, fun a ha a' ha' hfailed => ?_⟩
    obtain rfl := Option.some.inj ha'
    exact le_trans (h.ready a ha hfailed) (le_of_not_gt hwaited)
  · rw [List.getLast?_concat, Option.map_some, Option.getD_some, Attempt.next]
    unfold Backoff.attempted Backoff.attempt
    dsimp only
    cases s.outcome <;> rfl
  · intro a ha hfailed
    rw [List.getLast?_concat] at ha
    obtain rfl := Option.some.inj ha
    change s.outcome = .failed at hfailed
    obtain ⟨-, hproduct, hsum⟩ := hrepresentable hdue hfailed
    have hdelayed := hdelay hfailed
    unfold Backoff.attempted
    rw [hfailed]
    change s.later + (b.attempt s).delay * 1000000 ≤ addDelay s.later (b.attempt s).delay s.added
    rw [hdelayed, addDelay_eq hproduct hsum]

/-- The step lemma of a call of `serviceReconnect`. -/
theorem Tracks.serve {b : Backoff} {attempts : List Attempt} (h : Tracks b attempts)
    {s : Service} (hrepresentable : b.Representable s) :
    Tracks (b.serve s) (attempts ++ b.attempts s) := by
  unfold Backoff.serve Backoff.attempts
  split
  · next hdue => exact h.attempted hdue hrepresentable
  · rwa [List.append_nil]

/-! ## Runs -/

/-- What an action does to the backoff: it sets a policy, or it gets to a call of
`serviceReconnect`. -/
inductive Backs where
  | nothing
  | sets (policy : ReconnectPolicy)
  | serves (service : Service)

namespace Backoff

/-- What one event does to the schedule. -/
def step (b : Backoff) : Backs → Backoff
  | .nothing => b
  | .sets policy => { policy := policy }
  | .serves s => b.serve s

/-- The attempts since the policy was set, after one more action. -/
def record (b : Backoff) (attempts : List Attempt) : Backs → List Attempt
  | .nothing => attempts
  | .sets _ => []
  | .serves s => attempts ++ b.attempts s

/-- A failed attempt is one that can be represented. -/
def Allows (b : Backoff) : Backs → Prop
  | .serves s => b.Representable s
  | _ => True

instance (b : Backoff) : ∀ e, Decidable (b.Allows e)
  | .nothing | .sets _ => inferInstanceAs (Decidable True)
  | .serves s => inferInstanceAs (Decidable (b.Representable s))

end Backoff

theorem Tracks.step {b : Backoff} {attempts : List Attempt} (h : Tracks b attempts) {e : Backs}
    (hallows : b.Allows e) : Tracks (b.step e) (b.record attempts e) := by
  cases e with
  | nothing => exact h
  | sets policy => exact tracks_set policy
  | serves s => exact h.serve hallows

section Run

variable {σ α : Type} (m : Machine σ α) (backoff : σ → Backoff) (backs : σ → α → Backs)

/-- The attempts since the policy was set, along a list of actions. -/
def attemptsFrom : List Attempt → σ → List α → List Attempt
  | attempts, _, [] => attempts
  | attempts, s, a :: rest =>
      attemptsFrom ((backoff s).record attempts (backs s a)) (m.step s a) rest

variable {m backoff backs}

/-- The run lemma, for a machine whose actions do to the backoff what `backs` says. -/
theorem Tracks.runFrom (hstep : ∀ s a, backoff (m.step s a) = (backoff s).step (backs s a))
    {s : σ} {attempts : List Attempt} {actions : List α} (h : Tracks (backoff s) attempts)
    (hguard : m.GuardedFrom (fun s a => (backoff s).Allows (backs s a)) s actions) :
    Tracks (backoff (m.runFrom s actions)) (attemptsFrom m backoff backs attempts s actions) := by
  induction actions generalizing s attempts with
  | nil => exact h
  | cons a rest ih =>
      have hnext := h.step hguard.1
      rw [← hstep] at hnext
      exact ih hnext hguard.2

end Run

end Motus.Transport
