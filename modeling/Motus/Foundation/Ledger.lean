import Mathlib

set_option autoImplicit false

/-!
# Ledgers of items that are settled once

An item is issued once and then held.  It leaves the holder's hands by being concluded,
or it is let go: nothing is going to be concluded about it any more.  `Sound` is what a
ledger keeps however its items move, and `Advances` what any later ledger has of an
earlier one, of which the point is that a lapsed item stays lapsed.
-/

namespace Motus.Foundation

/-- What has been issued, what of it is held, and what was concluded about it. -/
structure Ledger (α : Type) where
  issued : Multiset α
  held : Finset α
  concluded : Multiset α

namespace Ledger

variable {α : Type}

/-- The item was let go. -/
def Lapsed (l : Ledger α) (x : α) : Prop := x ∈ l.issued ∧ x ∉ l.held ∧ x ∉ l.concluded

/-- Nothing is issued twice or concluded twice, and what is held or concluded has been
issued, and is not both. -/
structure Sound (l : Ledger α) : Prop where
  issued_nodup : l.issued.Nodup
  concluded_nodup : l.concluded.Nodup
  concluded_issued : ∀ x ∈ l.concluded, x ∈ l.issued
  held_issued : ∀ x ∈ l.held, x ∈ l.issued
  held_open : ∀ x ∈ l.held, x ∉ l.concluded

/-- What a later ledger has of an earlier one. -/
structure Advances (l l' : Ledger α) : Prop where
  issued : l.issued ≤ l'.issued
  concluded : l.concluded ≤ l'.concluded
  lapsed : ∀ x, l.Lapsed x → l'.Lapsed x

instance : IsPreorder (Ledger α) Advances where
  refl _ := ⟨le_rfl, le_rfl, fun _ => id⟩
  trans _ _ _ h h' := ⟨h.issued.trans h'.issued, h.concluded.trans h'.concluded,
    fun x hx => h'.lapsed x (h.lapsed x hx)⟩

theorem sound_empty : Sound (⟨0, ∅, 0⟩ : Ledger α) := by
  constructor <;> simp

/-- What moves a ledger soundly on. -/
def Follows (l l' : Ledger α) : Prop := l.Sound → l'.Sound ∧ l.Advances l'

instance : IsPreorder (Ledger α) Follows where
  refl l := fun h => ⟨h, Std.Refl.refl l⟩
  trans l m n := by
    intro hlm hmn hl
    obtain ⟨hm, hadvances⟩ := hlm hl
    obtain ⟨hn, hadvances'⟩ := hmn hm
    exact ⟨hn, IsTrans.trans l m n hadvances hadvances'⟩

section Move

variable [DecidableEq α]

/-- One move of the items. -/
inductive Move : Ledger α → Ledger α → Prop where
  | issue (l : Ledger α) (x : α) (hfresh : x ∉ l.issued) :
      Move l { l with issued := x ::ₘ l.issued, held := insert x l.held }
  | conclude (l : Ledger α) (x : α) (hheld : x ∈ l.held) :
      Move l { l with held := l.held.erase x, concluded := x ::ₘ l.concluded }
  | letGo (l : Ledger α) (held : Finset α) (hheld : held ⊆ l.held) :
      Move l { l with held := held }

theorem Move.sound {l l' : Ledger α} (hmove : Move l l') (h : l.Sound) : l'.Sound := by
  cases hmove with
  | issue x hfresh =>
      refine ⟨Multiset.nodup_cons.mpr ⟨hfresh, h.issued_nodup⟩, h.concluded_nodup, ?_, ?_, ?_⟩
      · exact fun y hy => Multiset.mem_cons_of_mem (h.concluded_issued y hy)
      · intro y hy
        rcases Finset.mem_insert.mp hy with rfl | hy
        · exact Multiset.mem_cons_self y _
        · exact Multiset.mem_cons_of_mem (h.held_issued y hy)
      · intro y hy hconcluded
        rcases Finset.mem_insert.mp hy with rfl | hy
        · exact hfresh (h.concluded_issued y hconcluded)
        · exact h.held_open y hy hconcluded
  | conclude x hheld =>
      refine ⟨h.issued_nodup, ?_, ?_, ?_, ?_⟩
      · exact Multiset.nodup_cons.mpr ⟨h.held_open x hheld, h.concluded_nodup⟩
      · intro y hy
        rcases Multiset.mem_cons.mp hy with rfl | hy
        · exact h.held_issued y hheld
        · exact h.concluded_issued y hy
      · exact fun y hy => h.held_issued y (Finset.mem_of_mem_erase hy)
      · intro y hy hconcluded
        rcases Multiset.mem_cons.mp hconcluded with rfl | hconcluded
        · exact Finset.ne_of_mem_erase hy rfl
        · exact h.held_open y (Finset.mem_of_mem_erase hy) hconcluded
  | letGo held hheld =>
      exact { h with
        held_issued := fun y hy => h.held_issued y (hheld hy)
        held_open := fun y hy => h.held_open y (hheld hy) }

theorem Move.advances {l l' : Ledger α} (hmove : Move l l') : l.Advances l' := by
  cases hmove with
  | issue x hfresh =>
      refine ⟨Multiset.le_cons_self _ _, le_rfl, fun y ⟨hissued, hheld, hopen⟩ => ?_⟩
      refine ⟨Multiset.mem_cons_of_mem hissued, fun hy => ?_, hopen⟩
      rcases Finset.mem_insert.mp hy with rfl | hy
      · exact hfresh hissued
      · exact hheld hy
  | conclude x hheld =>
      refine ⟨le_rfl, Multiset.le_cons_self _ _, fun y ⟨hissued, hnot, hopen⟩ => ?_⟩
      refine ⟨hissued, fun hy => hnot (Finset.mem_of_mem_erase hy), fun hy => ?_⟩
      rcases Multiset.mem_cons.mp hy with rfl | hy
      · exact hnot hheld
      · exact hopen hy
  | letGo held hheld =>
      exact ⟨le_rfl, le_rfl, fun y ⟨hissued, hnot, hopen⟩ =>
        ⟨hissued, fun hy => hnot (hheld hy), hopen⟩⟩

theorem Move.follows {l l' : Ledger α} (h : Move l l') : l.Follows l' :=
  fun hsound => ⟨h.sound hsound, h.advances⟩

/-- A conclusion lets none go. -/
theorem lapsed_of_conclude {l : Ledger α} {x y : α}
    (hy : Lapsed { l with held := l.held.erase x, concluded := x ::ₘ l.concluded } y) :
    l.Lapsed y := by
  obtain ⟨hissued, hheld, hconcluded⟩ := hy
  rw [Multiset.mem_cons, not_or] at hconcluded
  exact ⟨hissued, fun hmem => hheld (Finset.mem_erase.mpr ⟨hconcluded.1, hmem⟩), hconcluded.2⟩

/-- A new item is held, or concluded as soon as it is issued. -/
inductive Taken (x : α) (l : Ledger α) : Ledger α → Prop where
  | held : Taken x l { l with issued := x ::ₘ l.issued, held := insert x l.held }
  | concluded : Taken x l { l with issued := x ::ₘ l.issued, concluded := x ::ₘ l.concluded }

theorem Taken.issued {x : α} {l l' : Ledger α} (h : Taken x l l') :
    l'.issued = x ::ₘ l.issued := by
  cases h <;> rfl

theorem Taken.follows {x : α} {l l' : Ledger α} (h : Taken x l l') (hfresh : x ∉ l.issued) :
    l.Follows l' := by
  have hissue := Move.issue l x hfresh
  cases h with
  | held => exact hissue.follows
  | concluded =>
      intro hsound
      have hconclude := Move.conclude
        { l with issued := x ::ₘ l.issued, held := insert x l.held } x
        (Finset.mem_insert_self x l.held)
      have hnot : x ∉ l.held := fun hx => hfresh (hsound.held_issued x hx)
      rw [Finset.erase_insert hnot] at hconclude
      exact IsTrans.trans (r := Follows) _ _ _ hissue.follows hconclude.follows hsound

/-- A new item lets none go. -/
theorem Taken.lapsed {x y : α} {l l' : Ledger α} (h : Taken x l l') (hy : l'.Lapsed y) :
    l.Lapsed y := by
  obtain ⟨hissued, hheld, hconcluded⟩ := hy
  rw [h.issued, Multiset.mem_cons] at hissued
  cases h with
  | held =>
      rw [Finset.mem_insert, not_or] at hheld
      exact ⟨hissued.resolve_left hheld.1, hheld.2, hconcluded⟩
  | concluded =>
      rw [Multiset.mem_cons, not_or] at hconcluded
      exact ⟨hissued.resolve_left hconcluded.1, hheld, hconcluded.2⟩

end Move

end Ledger

end Motus.Foundation
