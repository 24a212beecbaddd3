import Mathlib

set_option autoImplicit false

/-!
# Written numbers

The digits of a number in a base of at most sixteen, and the field of a given width that
they fill, zeros first.  A number is read back from either.

Both are injective, and a field is as wide as was asked for unless the number is longer.
-/

namespace Motus.Foundation

/-- The digits of a positive number. -/
def numeral (base n : Nat) : List Char := ((Nat.digits base n).map Nat.digitChar).reverse

/-- The digits of a number, with zeros before them up to a width. -/
def field (base width n : Nat) : List Char :=
  List.replicate (width - (numeral base n).length) '0' ++ numeral base n

/-- The value of a digit. -/
def digitValue (c : Char) : Nat :=
  if c.toNat ≤ '9'.toNat then c.toNat - '0'.toNat else c.toNat - 'a'.toNat + 10

/-- The number that some digits are of. -/
def fieldValue (base : Nat) (digits : List Char) : Nat :=
  Nat.ofDigits base (digits.reverse.map digitValue)

theorem digitValue_digitChar {d : Nat} (h : d < 16) : digitValue (Nat.digitChar d) = d := by
  interval_cases d <;> rfl

/-- The sixteen digits. -/
def IsDigit (c : Char) : Prop := ∃ d < 16, c = Nat.digitChar d

theorem IsDigit.zero : IsDigit '0' := ⟨0, by decide, rfl⟩

theorem IsDigit.ne {c : Char} (h : IsDigit c) {other : Char}
    (hother : ∀ d < 16, Nat.digitChar d ≠ other) : c ≠ other := by
  obtain ⟨d, hd, rfl⟩ := h
  exact hother d hd

section Base

variable {base : Nat} (hbase : 1 < base) (hsixteen : base ≤ 16)
include hbase hsixteen

theorem isDigit_of_mem_numeral {n : Nat} {c : Char} (h : c ∈ numeral base n) : IsDigit c := by
  rw [numeral, List.mem_reverse, List.mem_map] at h
  obtain ⟨d, hd, rfl⟩ := h
  exact ⟨d, (Nat.digits_lt_base hbase hd).trans_le hsixteen, rfl⟩

theorem isDigit_of_mem_field {width n : Nat} {c : Char} (h : c ∈ field base width n) :
    IsDigit c := by
  rw [field, List.mem_append] at h
  rcases h with h | h
  · rw [List.eq_of_mem_replicate h]
    exact .zero
  · exact isDigit_of_mem_numeral hbase hsixteen h

theorem map_digitValue (n : Nat) :
    ((Nat.digits base n).map Nat.digitChar).map digitValue = Nat.digits base n := by
  rw [List.map_map]
  conv_rhs => rw [← List.map_id (Nat.digits base n)]
  apply List.map_congr_left
  intro d hd
  exact digitValue_digitChar ((Nat.digits_lt_base hbase hd).trans_le hsixteen)

theorem fieldValue_field (width n : Nat) : fieldValue base (field base width n) = n := by
  unfold fieldValue field numeral
  rw [List.reverse_append, List.reverse_reverse, List.map_append, map_digitValue hbase hsixteen,
    List.reverse_replicate, List.map_replicate]
  change Nat.ofDigits base (Nat.digits base n ++ List.replicate _ 0) = n
  rw [Nat.ofDigits_append_replicate_zero, Nat.ofDigits_digits]

theorem fieldValue_numeral (n : Nat) : fieldValue base (numeral base n) = n := by
  unfold fieldValue numeral
  rw [List.reverse_reverse, map_digitValue hbase hsixteen, Nat.ofDigits_digits]

theorem field_injective (width : Nat) : Function.Injective (field base width) :=
  Function.LeftInverse.injective (fieldValue_field hbase hsixteen width)

theorem numeral_injective : Function.Injective (numeral base) :=
  Function.LeftInverse.injective (fieldValue_numeral hbase hsixteen)

omit hsixteen in
/-- A field is as wide as it is to be, when the number fits. -/
theorem length_field {width n : Nat} (h : n < base ^ width) : (field base width n).length = width := by
  have hlength : (numeral base n).length ≤ width := by
    rw [numeral, List.length_reverse, List.length_map]
    exact (Nat.digits_length_le_iff hbase n).mpr h
  rw [field, List.length_append, List.length_replicate]
  omega

omit hbase hsixteen in
/-- And no narrower in any case. -/
theorem le_length_field (base width n : Nat) : width ≤ (field base width n).length := by
  rw [field, List.length_append, List.length_replicate]
  omega

end Base

end Motus.Foundation
