import Mathlib

set_option autoImplicit false

/-!
# Cutting a list into blocks

A list of words is covered by a pattern when it can be cut into consecutive blocks, one
for each element of the pattern, such that every block is one that its element allows.

Backtracking searches for such a cut from the left.  The rules for an empty pattern and
for a first element say when there is one, and a pattern whose elements allow nothing
but themselves has no choice.
-/

namespace Motus.Foundation

variable {α β : Type} {allows : α → List β → Prop}

/-- `words` is cut into one block for each element of `pattern`. -/
def Covers (allows : α → List β → Prop) (pattern : List α) (words : List β) : Prop :=
  ∃ blocks : List (List β), words = blocks.flatten ∧ List.Forall₂ allows pattern blocks

@[simp] theorem covers_nil {words : List β} : Covers allows [] words ↔ words = [] := by
  constructor
  · rintro ⟨blocks, rfl, hblocks⟩
    rw [List.forall₂_nil_left_iff.mp hblocks, List.flatten_nil]
  · rintro rfl
    exact ⟨[], rfl, .nil⟩

/-- The block of the first element comes first. -/
theorem covers_cons {p : α} {pattern : List α} {words : List β} :
    Covers allows (p :: pattern) words ↔
      ∃ block rest, words = block ++ rest ∧ allows p block ∧ Covers allows pattern rest := by
  constructor
  · rintro ⟨blocks, rfl, hblocks⟩
    obtain ⟨block, others, hblock, hothers, rfl⟩ := List.forall₂_cons_left_iff.mp hblocks
    exact ⟨block, others.flatten, List.flatten_cons, hblock, others, rfl, hothers⟩
  · rintro ⟨block, rest, rfl, hblock, others, rfl, hothers⟩
    exact ⟨block :: others, List.flatten_cons.symm, .cons hblock hothers⟩

/-- An element that allows every block leaves any suffix to the others. -/
theorem covers_cons_of_all {p : α} (hp : ∀ block, allows p block) {pattern : List α}
    {words : List β} :
    Covers allows (p :: pattern) words ↔ ∃ rest, rest <:+ words ∧ Covers allows pattern rest := by
  rw [covers_cons]
  constructor
  · rintro ⟨block, rest, rfl, -, hrest⟩
    exact ⟨rest, List.suffix_append block rest, hrest⟩
  · rintro ⟨rest, ⟨block, rfl⟩, hrest⟩
    exact ⟨block, rest, rfl, hp block, hrest⟩

/-- An element that allows single words only takes the first one. -/
theorem covers_cons_of_one {p : α} {one : β → Prop}
    (hp : ∀ block, allows p block ↔ ∃ w, block = [w] ∧ one w) {pattern : List α}
    {words : List β} :
    Covers allows (p :: pattern) words ↔
      ∃ w rest, words = w :: rest ∧ one w ∧ Covers allows pattern rest := by
  rw [covers_cons]
  constructor
  · rintro ⟨block, rest, rfl, hblock, hrest⟩
    obtain ⟨w, rfl, hw⟩ := (hp block).mp hblock
    exact ⟨w, rest, rfl, hw, hrest⟩
  · rintro ⟨w, rest, rfl, hw, hrest⟩
    exact ⟨[w], rest, rfl, (hp [w]).mpr ⟨w, rfl, hw⟩, hrest⟩

/-- A pattern whose elements allow nothing but themselves covers nothing but itself. -/
theorem covers_iff_eq {allows : β → List β → Prop} {pattern words : List β}
    (hself : ∀ p ∈ pattern, ∀ block, allows p block ↔ block = [p]) :
    Covers allows pattern words ↔ words = pattern := by
  induction pattern generalizing words with
  | nil => exact covers_nil
  | cons p rest ih =>
      have hp := hself p List.mem_cons_self
      have hrest : ∀ q ∈ rest, ∀ block, allows q block ↔ block = [q] :=
        fun q hq => hself q (List.mem_cons_of_mem p hq)
      rw [covers_cons]
      constructor
      · rintro ⟨block, others, rfl, hblock, hothers⟩
        rw [(hp block).mp hblock, (ih hrest).mp hothers]
        rfl
      · rintro rfl
        exact ⟨[p], rest, rfl, (hp [p]).mpr rfl, (ih hrest).mpr rfl⟩

end Motus.Foundation
