import Mathlib

set_option autoImplicit false

/-!
# Marked repeats

A sequence whose elements carry a key and a mark marks its repeats when exactly those
elements are marked whose key occurred before.  Every key then has one unmarked element,
its first.

The mark is computed from what was seen so far, so a sequence is extended at its end and
each prefix of it marks its repeats as well.
-/

namespace Motus.Foundation

section Repeats

variable {α κ : Type} (key : α → κ) (mark : α → Bool)

/-- An element is marked exactly when its key occurred before it. -/
def MarksRepeats (l : List α) : Prop :=
  ∀ before a after, l = before ++ a :: after → (mark a = true ↔ ∃ b ∈ before, key b = key a)

variable {key mark} {l : List α} {a : α}

theorem marksRepeats_nil : MarksRepeats key mark [] := by
  intro before a after heq
  exact absurd heq (by simp)

theorem MarksRepeats.concat (h : MarksRepeats key mark l)
    (ha : mark a = true ↔ ∃ b ∈ l, key b = key a) : MarksRepeats key mark (l ++ [a]) := by
  intro before c after heq
  rcases after.eq_nil_or_concat with rfl | ⟨after, last, rfl⟩
  · obtain ⟨rfl, hlast⟩ := List.append_inj' heq rfl
    rw [← List.singleton_inj.mp hlast]
    exact ha
  · rw [List.concat_eq_append, ← List.cons_append, ← List.append_assoc] at heq
    exact h before c after (List.append_inj' heq rfl).1

theorem MarksRepeats.of_append {l' : List α} (h : MarksRepeats key mark (l ++ l')) :
    MarksRepeats key mark l := by
  intro before a after heq
  apply h before a (after ++ l')
  rw [heq, List.append_assoc, List.cons_append]

/-- Every key that occurs has an element that is not marked. -/
theorem MarksRepeats.exists_first (h : MarksRepeats key mark l) (ha : a ∈ l) :
    ∃ b ∈ l, key b = key a ∧ mark b = false := by
  induction l using List.reverseRecOn generalizing a with
  | nil => exact absurd ha List.not_mem_nil
  | append_singleton l c ih =>
      -- an earlier occurrence has one, and an element that is new is one itself
      have hearlier : ∀ d ∈ l, ∃ b ∈ l ++ [c], key b = key d ∧ mark b = false := by
        intro d hd
        obtain ⟨b, hb, hkey, hmark⟩ := ih h.of_append hd
        exact ⟨b, List.mem_append_left _ hb, hkey, hmark⟩
      rcases List.mem_append.mp ha with ha | ha
      · exact hearlier a ha
      · obtain rfl := List.mem_singleton.mp ha
        cases hmark : mark a with
        | false => exact ⟨a, List.mem_append_right _ (List.mem_singleton_self a), rfl, hmark⟩
        | true =>
            obtain ⟨d, hd, hkey⟩ := (h l a [] rfl).mp hmark
            obtain ⟨b, hb, hfirst, hunmarked⟩ := hearlier d hd
            exact ⟨b, hb, hfirst.trans hkey, hunmarked⟩

end Repeats

end Motus.Foundation
