import Motus.Transport.Seam

set_option autoImplicit false

/-!
# How full a forensic destination is (`include/motus/transport/ITransport.hpp`)

The depth and the cap are 32-bit numbers, their products by ten and by nine 64-bit
ones, so the comparison of the products is the one of the exact fractions.

The classification grows with the depth, for every cap but zero, which switches it off.
-/

namespace Motus.Transport

/-- How close a forensic destination is to losing evidence. -/
inductive ForensicPressure where
  | normal
  | nearCap
  | atCap
  deriving DecidableEq, Repr

/-- The order of the alarms. -/
def ForensicPressure.severity : ForensicPressure → Nat
  | .normal => 0
  | .nearCap => 1
  | .atCap => 2

/-- `forensicPressure`: the comparison with nine tenths is made in 64 bits. -/
def forensicPressure (depth cap : UInt32) : ForensicPressure :=
  if cap = 0 then .normal
  else if depth ≥ cap then .atCap
  else if depth.toUInt64 * 10 ≥ cap.toUInt64 * 9 then .nearCap
  else .normal

/-- A product of a 32-bit number by a small factor does not leave the 64-bit range. -/
theorem toNat_toUInt64_mul (n : UInt32) {k : UInt64} (hk : k.toNat ≤ 10) :
    (n.toUInt64 * k).toNat = n.toNat * k.toNat := by
  have hlt := n.toNat_lt
  have hle : n.toNat * k.toNat ≤ n.toNat * 10 := Nat.mul_le_mul_left _ hk
  rw [UInt64.toNat_mul, UInt32.toNat_toUInt64, Nat.mod_eq_of_lt (by omega)]

theorem nearCap_test_iff (depth cap : UInt32) :
    depth.toUInt64 * 10 ≥ cap.toUInt64 * 9 ↔ cap.toNat * 9 ≤ depth.toNat * 10 := by
  rw [ge_iff_le, UInt64.le_iff_toNat_le, toNat_toUInt64_mul cap (by decide),
    toNat_toUInt64_mul depth (by decide)]
  rfl

variable {depth cap : UInt32}

/-- The classification by the numbers themselves. -/
theorem forensicPressure_eq (hcap : 0 < cap.toNat) : forensicPressure depth cap =
    if cap.toNat ≤ depth.toNat then .atCap
    else if cap.toNat * 9 ≤ depth.toNat * 10 then .nearCap
    else .normal := by
  have hne : cap ≠ 0 := fun h => by simp [h] at hcap
  simp only [forensicPressure, if_neg hne, nearCap_test_iff, ge_iff_le, UInt32.le_iff_toNat_le]

theorem forensicPressure_eq_atCap_iff (hcap : 0 < cap.toNat) :
    forensicPressure depth cap = .atCap ↔ cap.toNat ≤ depth.toNat := by
  rw [forensicPressure_eq hcap]
  split
  · next hle => exact ⟨fun _ => hle, fun _ => rfl⟩
  · next hle => split <;> simp [hle]

theorem forensicPressure_eq_nearCap_iff (hcap : 0 < cap.toNat) :
    forensicPressure depth cap = .nearCap ↔
      cap.toNat * 9 ≤ depth.toNat * 10 ∧ depth.toNat < cap.toNat := by
  rw [forensicPressure_eq hcap, ← Nat.not_le]
  split
  · next hle => simp [hle]
  · next hle => split <;> simp_all

/-- The threshold is nine tenths as exact fractions. -/
theorem forensicPressure_eq_nearCap_iff_div (hcap : 0 < cap.toNat) :
    forensicPressure depth cap = .nearCap ↔
      (9 / 10 : ℚ) ≤ (depth.toNat : ℚ) / cap.toNat ∧ (depth.toNat : ℚ) / cap.toNat < 1 := by
  have hpos : (0 : ℚ) < cap.toNat := Nat.cast_pos.mpr hcap
  rw [forensicPressure_eq_nearCap_iff hcap, div_lt_one hpos, le_div_iff₀ hpos, Nat.cast_lt]
  refine and_congr_left fun _ => ⟨fun h => ?_, fun h => ?_⟩
  · have hcast : ((cap.toNat * 9 : ℕ) : ℚ) ≤ (depth.toNat * 10 : ℕ) := Nat.cast_le.mpr h
    push_cast at hcast
    linarith
  · have hcast : ((cap.toNat * 9 : ℕ) : ℚ) ≤ (depth.toNat * 10 : ℕ) := by
      push_cast
      linarith
    exact Nat.cast_le.mp hcast

/-- The severity counts the thresholds that the depth has passed. -/
theorem severity_forensicPressure (hcap : 0 < cap.toNat) :
    (forensicPressure depth cap).severity =
      (if cap.toNat * 9 ≤ depth.toNat * 10 then 1 else 0) +
        (if cap.toNat ≤ depth.toNat then 1 else 0) := by
  rw [forensicPressure_eq hcap]
  by_cases hle : cap.toNat ≤ depth.toNat
  · rw [if_pos hle, if_pos hle, if_pos (by omega)]
    rfl
  · rw [if_neg hle, if_neg hle]
    split <;> rfl

/-- A deeper queue never raises a lesser alarm. -/
theorem severity_forensicPressure_le (hcap : 0 < cap.toNat) {depth depth' : UInt32}
    (hle : depth ≤ depth') :
    (forensicPressure depth cap).severity ≤ (forensicPressure depth' cap).severity := by
  rw [UInt32.le_iff_toNat_le] at hle
  rw [severity_forensicPressure hcap, severity_forensicPressure hcap]
  refine Nat.add_le_add ?_ ?_
  · split
    · rw [if_pos (by omega)]
    · exact Nat.zero_le _
  · split
    · rw [if_pos (by omega)]
    · exact Nat.zero_le _

end Motus.Transport
