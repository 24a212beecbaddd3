import Motus.Transport.Seam
import Motus.Foundation.Blocks

set_option autoImplicit false

/-!
# What a pattern matches (`routeMatches` of `include/motus/transport/ITransport.hpp`)

The matcher backtracks over the words of a route.  It accepts exactly the routes whose
words can be cut into blocks as the words of the binding allow, and the words of a text
determine the text.

Both directions hold for any strings, so that everything known about coverings is known
about bindings.
-/

namespace Motus.Transport

open Motus.Foundation

/-! ## Words -/

/-- The inverse of `split`: the words with dots between them. -/
def join (words : List (List Char)) : String := String.ofList (['.'].intercalate words)

/-- The loop of the lambda `split`, from the position it has come to. -/
def splitFrom (text : List Char) (start : Nat) : List (List Char) :=
  match h : (text.drop start).findIdx? (· == '.') with
  | none => [text.drop start]
  | some length => (text.drop start).take length :: splitFrom text (start + length + 1)
termination_by text.length - start
decreasing_by
  have hlt := (List.findIdx?_eq_some_iff_getElem.mp h).1
  rw [List.length_drop] at hlt
  omega

/-- No dot stands before the first one. -/
theorem not_mem_take_of_findIdx? {text : List Char} {length : Nat}
    (h : text.findIdx? (· == '.') = some length) : '.' ∉ text.take length := by
  obtain ⟨_, _, hbefore⟩ := List.findIdx?_eq_some_iff_getElem.mp h
  intro hmem
  obtain ⟨n, hn, heq⟩ := List.mem_take_iff_getElem.mp hmem
  have hnot := hbefore n (by omega)
  rw [heq] at hnot
  exact hnot rfl

theorem not_mem_of_findIdx?_eq_none {text : List Char}
    (h : text.findIdx? (· == '.') = none) : '.' ∉ text :=
  fun hmem => absurd (List.findIdx?_eq_none_iff.mp h '.' hmem) (by simp)

/-- The loop finds the words between the dots. -/
theorem splitFrom_eq (text : List Char) (start : Nat) :
    splitFrom text start = (text.drop start).splitOn '.' := by
  fun_induction splitFrom text start with
  | case1 start hnone =>
      exact (List.splitOn_eq_singleton (not_mem_of_findIdx?_eq_none hnone)).symm
  | case2 start length hsome ih =>
      obtain ⟨hlt, hdot, -⟩ := List.findIdx?_eq_some_iff_getElem.mp hsome
      have hcut : text.drop start =
          (text.drop start).take length ++ '.' :: text.drop (start + length + 1) := by
        have hrest : (text.drop start).drop length = '.' :: text.drop (start + length + 1) := by
          rw [List.drop_eq_getElem_cons hlt, eq_of_beq hdot, List.drop_drop]
          rfl
        rw [← hrest, List.take_append_drop]
      rw [ih, hcut,
        List.splitOn_append_cons_self_of_not_mem (not_mem_take_of_findIdx? hsome), ← hcut]

/-- The words have no dots. -/
theorem not_mem_splitFrom (text : List Char) (start : Nat) :
    ∀ w ∈ splitFrom text start, '.' ∉ w := by
  fun_induction splitFrom text start with
  | case1 start hnone =>
      intro w hw
      rw [List.mem_singleton.mp hw]
      exact not_mem_of_findIdx?_eq_none hnone
  | case2 start length hsome ih =>
      intro w hw
      rcases List.mem_cons.mp hw with rfl | hw
      · exact not_mem_take_of_findIdx? hsome
      · exact ih w hw

theorem split_eq_splitFrom (text : String) : split text = splitFrom text.toList 0 := by
  rw [splitFrom_eq, List.drop_zero]
  rfl

theorem not_mem_split (text : String) : ∀ w ∈ split text, '.' ∉ w := by
  rw [split_eq_splitFrom]
  exact not_mem_splitFrom _ _

theorem split_ne_nil (text : String) : split text ≠ [] := List.splitOn_ne_nil '.' _

/-- Splitting is undone by joining. -/
theorem join_split (text : String) : join (split text) = text := by
  rw [join, split, List.intercalate_splitOn, String.ofList_toList]

/-- Joining is undone by splitting, for words that a split can have. -/
theorem split_join {words : List (List Char)} (hne : words ≠ []) (hdot : ∀ w ∈ words, '.' ∉ w) :
    split (join words) = words := by
  rw [join, split, String.toList_ofList]
  exact List.splitOn_intercalate '.' hdot hne

theorem split_injective {text text' : String} (h : split text = split text') : text = text' := by
  rw [← join_split text, h, join_split]

/-! ## The matcher -/

/-- `Matcher::at` as the source runs it, over positions in the two word lists. -/
def matcherAtFrom (p k : List (List Char)) (i j : Nat) : Bool :=
  if h : p.length ≤ i then decide (j = k.length)
  else
    if p[i] = ['#'] then (List.range' j (k.length + 1 - j)).any (matcherAtFrom p k (i + 1))
    else
      match k[j]? with
      | none => false
      | some w => if p[i] ≠ ['*'] ∧ p[i] ≠ w then false else matcherAtFrom p k (i + 1) (j + 1)
termination_by p.length - i

/-- It computes what `matcherAt` does on the words from these positions on. -/
theorem matcherAtFrom_eq (p k : List (List Char)) (i j : Nat) (hj : j ≤ k.length) :
    matcherAtFrom p k i j = matcherAt (p.drop i) (k.drop j) := by
  fun_induction matcherAtFrom p k i j with
  | case1 i j hend =>
      rw [List.drop_eq_nil_of_le hend, matcherAt, Bool.eq_iff_iff, decide_eq_true_iff,
        List.isEmpty_iff, List.drop_eq_nil_iff]
      omega
  | case2 i j hin hhash ih =>
      rw [List.drop_eq_getElem_cons (Nat.lt_of_not_le hin)]
      unfold matcherAt
      rw [if_pos hhash, Bool.eq_iff_iff, List.any_eq_true, List.any_eq_true]
      constructor
      · rintro ⟨n, hn, hmatch⟩
        have hrange := List.mem_range'_1.mp hn
        refine ⟨k.drop n, ?_, ?_⟩
        · rw [List.mem_tails, ← Nat.add_sub_of_le hrange.1, ← List.drop_drop]
          exact List.drop_suffix _ _
        · rw [← ih n (by omega)]
          exact hmatch
      · rintro ⟨rest, hrest, hmatch⟩
        obtain ⟨skipped, hsplit⟩ := (List.mem_tails _ _).mp hrest
        have hlen : skipped.length ≤ k.length - j := by
          rw [← List.length_drop, ← hsplit, List.length_append]
          omega
        have hdrop : k.drop (j + skipped.length) = rest := by
          rw [← List.drop_drop, ← hsplit, List.drop_left]
        refine ⟨j + skipped.length, List.mem_range'_1.mpr (by omega), ?_⟩
        rw [ih _ (by omega), hdrop]
        exact hmatch
  | case3 i j hin hhash hnone =>
      rw [List.drop_eq_getElem_cons (Nat.lt_of_not_le hin),
        List.drop_eq_nil_of_le (List.getElem?_eq_none_iff.mp hnone), matcherAt, if_neg hhash]
  | case4 i j hin hhash w hw hno =>
      obtain ⟨hlt, rfl⟩ := List.getElem?_eq_some_iff.mp hw
      rw [List.drop_eq_getElem_cons (Nat.lt_of_not_le hin), List.drop_eq_getElem_cons hlt,
        matcherAt, if_neg hhash, if_pos hno]
  | case5 i j hin hhash w hw hyes ih =>
      obtain ⟨hlt, rfl⟩ := List.getElem?_eq_some_iff.mp hw
      rw [List.drop_eq_getElem_cons (Nat.lt_of_not_le hin), List.drop_eq_getElem_cons hlt,
        matcherAt, if_neg hhash, if_neg hyes]
      exact ih hlt

/-! ## Blocks -/

/-- The blocks of words that a word of a binding stands for. -/
def allows (p : List Char) (block : List (List Char)) : Prop :=
  if p = ['#'] then True
  else if p = ['*'] then block.length = 1
  else block = [p]

theorem allows_hash (block : List (List Char)) : allows ['#'] block := by simp [allows]

/-- Any other word than `#` takes one word. -/
theorem allows_iff {p : List Char} (hp : p ≠ ['#']) (block : List (List Char)) :
    allows p block ↔ ∃ w, block = [w] ∧ (p = ['*'] ∨ p = w) := by
  unfold allows
  rw [if_neg hp]
  split
  · next hstar =>
      rw [List.length_eq_one_iff]
      exact exists_congr fun w => ⟨fun hw => ⟨hw, .inl hstar⟩, And.left⟩
  · next hword =>
      refine ⟨fun heq => ⟨p, heq, .inr rfl⟩, ?_⟩
      rintro ⟨w, rfl, hstar | rfl⟩
      · exact absurd hstar hword
      · rfl

/-- The matcher finds a cut if there is one. -/
theorem matcherAt_iff_covers (pattern words : List (List Char)) :
    matcherAt pattern words = true ↔ Covers allows pattern words := by
  induction pattern generalizing words with
  | nil => rw [matcherAt, covers_nil, List.isEmpty_iff]
  | cons p rest ih =>
      unfold matcherAt
      split
      · next hhash =>
          subst hhash
          rw [covers_cons_of_all allows_hash, List.any_eq_true]
          simp only [List.mem_tails, ih]
      · next hp =>
          rw [covers_cons_of_one (allows_iff hp)]
          cases words with
          | nil => simp
          | cons w others =>
              dsimp only
              split
              · next hno =>
                  refine ⟨fun h => absurd h Bool.false_ne_true, ?_⟩
                  rintro ⟨v, tail, heq, hone, -⟩
                  obtain ⟨rfl, rfl⟩ := List.cons.inj heq
                  exact absurd hone (not_or.mpr hno)
              · next hone =>
                  rw [ih]
                  refine ⟨fun h => ⟨w, others, rfl, ?_, h⟩, ?_⟩
                  · rwa [← not_or, not_not] at hone
                  · rintro ⟨v, tail, heq, -, h⟩
                    rw [(List.cons.inj heq).2]
                    exact h

theorem routeMatches_eq_matcherAtFrom (binding route : String) :
    routeMatches binding route = matcherAtFrom (split binding) (split route) 0 0 :=
  (matcherAtFrom_eq _ _ 0 0 (Nat.zero_le _)).symm

theorem routeMatches_iff_covers (binding route : String) :
    routeMatches binding route = true ↔ Covers allows (split binding) (split route) :=
  matcherAt_iff_covers _ _

/-- A binding without wildcards matches itself and nothing else. -/
theorem routeMatches_iff_eq {binding : String} (hstar : ['*'] ∉ split binding)
    (hhash : ['#'] ∉ split binding) (route : String) :
    routeMatches binding route = true ↔ route = binding := by
  rw [routeMatches_iff_covers, covers_iff_eq fun p hp block => ?_]
  · exact ⟨split_injective, fun heq => by rw [heq]⟩
  · rw [allows, if_neg (ne_of_mem_of_not_mem hp hhash), if_neg (ne_of_mem_of_not_mem hp hstar)]

end Motus.Transport
