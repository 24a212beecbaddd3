import Motus.Amqp.Session

set_option autoImplicit false

/-!
# What the request for a queue compares

A broker compares the flags and the arguments of a queue that is declared again with
those it has.  The flags carry three of the options as they are.  The arguments carry
`deadLetter`, and of a limit that is set its value, narrowed to a `std::int32_t`, and the
policy: `lengthLimit` is what is left of the two.
-/

namespace Motus.Amqp

open Motus.Transport

theorem overflowPolicyName_injective : Function.Injective overflowPolicyName := by
  intro policy policy' h
  cases policy <;> cases policy' <;> first | rfl | exact absurd h (by decide)

/-- The narrowing to `std::int32_t` keeps the numbers that fit. -/
theorem bmod_eq_self_iff (n : Nat) : Int.bmod n (2 ^ 32) = n ↔ n < 2 ^ 31 := by
  rw [Int.bmod_def]
  split <;> omega

/-- What the arguments say about the length of a queue. -/
def lengthLimit (options : TopicOptions) : Option (Int × OverflowPolicy) :=
  if 0 < options.maxLength then some (Int.bmod options.maxLength (2 ^ 32), options.overflow)
  else none

theorem queueFlags_eq_iff (options options' : TopicOptions) :
    queueFlags options = queueFlags options' ↔
      options.durable = options'.durable ∧ options.shared = options'.shared ∧
        options.deleteWhenUnused = options'.deleteWhenUnused := by
  unfold queueFlags
  cases options.durable <;> cases options.shared <;> cases options.deleteWhenUnused <;>
    cases options'.durable <;> cases options'.shared <;> cases options'.deleteWhenUnused <;>
    simp

theorem queueArguments_eq_iff (name : Topic) (options options' : TopicOptions) :
    queueArguments name options = queueArguments name options' ↔
      options.deadLetter = options'.deadLetter ∧ lengthLimit options = lengthLimit options' := by
  have hname : ∀ policy policy', overflowPolicyName policy = overflowPolicyName policy' ↔
      policy = policy' := fun _ _ => overflowPolicyName_injective.eq_iff
  unfold queueArguments lengthLimit
  by_cases hlimit : 0 < options.maxLength <;> by_cases hlimit' : 0 < options'.maxLength <;>
    cases options.deadLetter <;> cases options'.deadLetter <;>
    simp [hlimit, hlimit', hname]

/-- Limits that fit a `std::int32_t` are compared as they are. -/
theorem lengthLimit_eq_iff {options options' : TopicOptions} (h : options.maxLength < 2 ^ 31)
    (h' : options'.maxLength < 2 ^ 31) : lengthLimit options = lengthLimit options' ↔
      options.maxLength = options'.maxLength ∧
        (0 < options.maxLength → options.overflow = options'.overflow) := by
  unfold lengthLimit
  rw [(bmod_eq_self_iff _).mpr h, (bmod_eq_self_iff _).mpr h']
  by_cases hlimit : 0 < options.maxLength <;> by_cases hlimit' : 0 < options'.maxLength
  · rw [if_pos hlimit, if_pos hlimit', Option.some_inj, Prod.mk.injEq, Int.natCast_inj]
    exact and_congr_right fun _ => ⟨fun hpolicy _ => hpolicy, fun hpolicy => hpolicy hlimit⟩
  · rw [if_pos hlimit, if_neg hlimit']
    exact iff_of_false (by simp) fun hsame => hlimit' (hsame.1 ▸ hlimit)
  · rw [if_neg hlimit, if_pos hlimit']
    exact iff_of_false (by simp) fun hsame => hlimit (hsame.1 ▸ hlimit')
  · rw [if_neg hlimit, if_neg hlimit']
    exact iff_of_true rfl ⟨by omega, fun hpos => absurd hpos hlimit⟩

end Motus.Amqp
