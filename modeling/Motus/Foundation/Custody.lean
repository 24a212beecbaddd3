import Mathlib

set_option autoImplicit false

/-!
# Ticketed custody

Copies of payloads are issued, shelved, picked up again, given new tickets and
finally closed.  A copy is known by the number it was issued under and keeps its
payload; its ticket is drawn from one counter and may be replaced while the copy
is in somebody's hand.  Nothing here says which shelf or whose hand: a custody is
what an observer sees who counts copies.

`Sound` is what such an observer can rely on after any sequence of moves: every
copy ever issued is on a shelf, in a hand or closed, and no two of them share a
number or a ticket.
-/

namespace Motus.Foundation

/-- A copy: the number it was issued under, and its payload. -/
abbrev Copy (β : Type) := Nat × β

/-- A copy under its current ticket. -/
abbrev Ticketed (β : Type) := Nat × Copy β

/-- Where each copy is: on a shelf, in somebody's hands, or gone. -/
structure Custody (β : Type) where
  /-- The last number given out, to a copy or as a ticket. -/
  counter : Nat
  issued : Multiset (Copy β)
  shelved : Multiset (Ticketed β)
  inHand : Multiset (Ticketed β)
  closed : Multiset (Copy β)

namespace Custody

variable {β : Type}

/-- One move of one copy. -/
inductive Move : Custody β → Custody β → Prop where
  | issue (c : Custody β) (payload : β) :
      Move c { c with
        counter := c.counter + 1
        issued := (c.counter + 1, payload) ::ₘ c.issued
        inHand := (c.counter + 1, c.counter + 1, payload) ::ₘ c.inHand }
  | reticket (c : Custody β) (ticket : Nat) (copy : Copy β) (rest : Multiset (Ticketed β))
      (h : c.inHand = (ticket, copy) ::ₘ rest) :
      Move c { c with counter := c.counter + 1, inHand := (c.counter + 1, copy) ::ₘ rest }
  | shelve (c : Custody β) (x : Ticketed β) (rest : Multiset (Ticketed β))
      (h : c.inHand = x ::ₘ rest) :
      Move c { c with shelved := x ::ₘ c.shelved, inHand := rest }
  | pick (c : Custody β) (x : Ticketed β) (rest : Multiset (Ticketed β))
      (h : c.shelved = x ::ₘ rest) :
      Move c { c with shelved := rest, inHand := x ::ₘ c.inHand }
  | close (c : Custody β) (x : Ticketed β) (rest : Multiset (Ticketed β))
      (h : c.inHand = x ::ₘ rest) :
      Move c { c with inHand := rest, closed := x.2 ::ₘ c.closed }

/-- What holds of a custody however its copies were moved. -/
structure Sound (c : Custody β) : Prop where
  /-- every copy issued is on a shelf, in a hand or closed, and nothing else is -/
  balanced : c.issued = c.shelved.map Prod.snd + c.inHand.map Prod.snd + c.closed
  copies_nodup : (c.issued.map Prod.fst).Nodup
  copies_le : ∀ n ∈ c.issued.map Prod.fst, n ≤ c.counter
  tickets_nodup : ((c.shelved + c.inHand).map Prod.fst).Nodup
  tickets_le : ∀ n ∈ (c.shelved + c.inHand).map Prod.fst, n ≤ c.counter

/-- Nothing has been issued. -/
def empty : Custody β := ⟨0, 0, 0, 0, 0⟩

theorem sound_empty : Sound (empty : Custody β) := by
  constructor <;> simp [empty]

theorem nodup_cons_succ {s : Multiset Nat} {n : Nat} (hs : s.Nodup) (hle : ∀ k ∈ s, k ≤ n) :
    ((n + 1) ::ₘ s).Nodup := by
  refine Multiset.nodup_cons.mpr ⟨fun hmem => ?_, hs⟩
  have := hle _ hmem
  omega

/-- Moving copies between shelves and hands changes nothing that is counted. -/
theorem Sound.relocate {c : Custody β} (h : Sound c) {shelved inHand : Multiset (Ticketed β)}
    (hsame : shelved + inHand = c.shelved + c.inHand) :
    Sound { c with shelved := shelved, inHand := inHand } := by
  refine ⟨?_, h.copies_nodup, h.copies_le, ?_, ?_⟩
  · have hmap := congrArg (Multiset.map Prod.snd) hsame
    rw [Multiset.map_add, Multiset.map_add] at hmap
    rw [h.balanced, hmap]
  · simpa only [hsame] using h.tickets_nodup
  · simpa only [hsame] using h.tickets_le

theorem Move.sound {c c' : Custody β} (hmove : Move c c') (h : Sound c) : Sound c' := by
  cases hmove with
  | issue payload =>
      refine ⟨?_, ?_, ?_, ?_, ?_⟩
      · simp only [Multiset.map_cons, h.balanced]
        rw [← Multiset.singleton_add, ← Multiset.singleton_add]
        abel
      · rw [Multiset.map_cons]
        exact nodup_cons_succ h.copies_nodup h.copies_le
      · intro n hn
        rw [Multiset.map_cons, Multiset.mem_cons] at hn
        rcases hn with rfl | hn
        · exact Nat.le_refl _
        · exact Nat.le_succ_of_le (h.copies_le n hn)
      · rw [Multiset.add_cons, Multiset.map_cons]
        exact nodup_cons_succ h.tickets_nodup h.tickets_le
      · intro n hn
        rw [Multiset.add_cons, Multiset.map_cons, Multiset.mem_cons] at hn
        rcases hn with rfl | hn
        · exact Nat.le_refl _
        · exact Nat.le_succ_of_le (h.tickets_le n hn)
  | reticket ticket copy rest hhand =>
      have hnodup := h.tickets_nodup
      have hle := h.tickets_le
      have hbalanced := h.balanced
      rw [hhand, Multiset.add_cons, Multiset.map_cons] at hnodup hle
      rw [hhand, Multiset.map_cons] at hbalanced
      refine ⟨by simpa using hbalanced, h.copies_nodup,
        fun n hn => Nat.le_succ_of_le (h.copies_le n hn), ?_, ?_⟩
      · rw [Multiset.add_cons, Multiset.map_cons]
        exact nodup_cons_succ (Multiset.nodup_cons.mp hnodup).2
          fun k hk => hle k (Multiset.mem_cons_of_mem hk)
      · intro n hn
        rw [Multiset.add_cons, Multiset.map_cons, Multiset.mem_cons] at hn
        rcases hn with rfl | hn
        · exact Nat.le_refl _
        · exact Nat.le_succ_of_le (hle n (Multiset.mem_cons_of_mem hn))
  | shelve x rest hhand =>
      exact h.relocate (by rw [hhand, Multiset.cons_add, Multiset.add_cons])
  | pick x rest hshelf =>
      exact h.relocate (by rw [hshelf, Multiset.cons_add, Multiset.add_cons])
  | close x rest hhand =>
      have hsub : c.shelved + rest ≤ c.shelved + c.inHand := by
        rw [hhand]
        exact Multiset.add_le_add_left (Multiset.le_cons_self rest x)
      have hmap := Multiset.map_le_map (f := Prod.fst) hsub
      refine ⟨?_, h.copies_nodup, h.copies_le, ?_, ?_⟩
      · rw [h.balanced, hhand, Multiset.map_cons, Multiset.add_cons, Multiset.add_cons,
          Multiset.cons_add]
      · exact Multiset.nodup_of_le hmap h.tickets_nodup
      · exact fun n hn => h.tickets_le n (Multiset.mem_of_le hmap hn)

/-- Closing any number of shelved copies: each is picked and closed. -/
theorem Sound.clear {c : Custody β} (h : Sound c) (cleared rest : Multiset (Ticketed β))
    (hshelved : c.shelved = cleared + rest) :
    Sound { c with shelved := rest, closed := cleared.map Prod.snd + c.closed } := by
  induction cleared using Multiset.induction_on generalizing c with
  | empty =>
      have hrest : c.shelved = rest := by rw [hshelved, zero_add]
      simpa [← hrest] using h
  | cons x cleared ih =>
      have hpick := (Move.pick c x (cleared + rest) (by rw [hshelved, Multiset.cons_add])).sound h
      have hclose := (Move.close _ x c.inHand rfl).sound hpick
      simpa only [Multiset.map_cons, Multiset.add_cons, Multiset.cons_add] using ih hclose rfl

/-! ## What the count says -/

/-- Every copy issued is in exactly one place: on one shelf, in one hand, or
closed, and there once. -/
theorem Sound.count_eq_one {c : Custody β} (h : Sound c) {n : Nat}
    (hn : n ∈ c.issued.map Prod.fst) :
    (c.shelved.map (·.2.1)).count n + (c.inHand.map (·.2.1)).count n +
      (c.closed.map Prod.fst).count n = 1 := by
  have hcount := Multiset.count_eq_one_of_mem h.copies_nodup hn
  rw [h.balanced] at hcount
  simpa [Multiset.map_add, Multiset.count_add, Multiset.map_map, Function.comp_def] using hcount

/-- Whoever holds a copy holds the payload it was issued with. -/
theorem Sound.payload_eq {c : Custody β} (h : Sound c) {n : Nat} {payload payload' : β}
    (hissued : (n, payload) ∈ c.issued) (hheld : (n, payload') ∈ c.issued) :
    payload' = payload := by
  have hinj := Multiset.inj_on_of_nodup_map h.copies_nodup
  exact congrArg Prod.snd (hinj _ hheld _ hissued rfl)

end Custody

end Motus.Foundation
