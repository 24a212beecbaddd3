import Mathlib

set_option autoImplicit false

/-!
# Gathering the contents of a finite map

`gather f t` is the multiset of everything the values of a map hold, where `f v`
is what the value `v` holds.  The lemmas say how one write changes it; the order
of the keys plays no role.

With them an account of what a program keeps in maps and lists of holders is a sum, and
moving an item from one place to another is an equation between sums.
-/

namespace Motus.Foundation

open Std

variable {κ ν ι : Type} [Ord κ] [TransOrd κ] [LawfulEqOrd κ]

/-! ## Entries of a map, up to order -/

/-- A new key adds one entry. -/
theorem toList_insert_perm_cons {t : TreeMap κ ν} {k : κ} (h : t[k]? = none) (w : ν) :
    (t.insert k w).toList.Perm ((k, w) :: t.toList) := by
  classical
  refine TreeMap.toList_insert_perm.trans (List.Perm.cons _ ?_)
  rw [List.filter_eq_self.mpr]
  rintro ⟨a, v⟩ hmem
  have hfound : t[a]? = some v := TreeMap.mem_toList_iff_getElem?_eq_some.mp hmem
  have hne : k ≠ a := by
    rintro rfl
    rw [h] at hfound
    exact absurd hfound (by simp)
  simpa using hne

/-- An entry that is present is the one that erasing it removes. -/
theorem toList_perm_cons_erase {t : TreeMap κ ν} {k : κ} {v : ν} (h : t[k]? = some v) :
    t.toList.Perm ((k, v) :: (t.erase k).toList) := by
  have hback : ((t.erase k).insert k v).Equiv t := by
    refine TreeMap.Equiv.of_forall_constGet?_eq fun a => ?_
    rw [TreeMap.getElem?_insert]
    split
    · next heq => rw [← LawfulEqOrd.eq_of_compare heq, h]
    · next hne => rw [TreeMap.getElem?_erase, if_neg hne]
  exact (TreeMap.equiv_iff_toList_perm.mp hback).symm.trans
    (toList_insert_perm_cons TreeMap.getElem?_erase_self v)

/-- Overwriting an entry changes that entry only. -/
theorem toList_insert_perm_erase (t : TreeMap κ ν) (k : κ) (w : ν) :
    (t.insert k w).toList.Perm ((k, w) :: (t.erase k).toList) := by
  have herase : ((t.insert k w).erase k).Equiv (t.erase k) := by
    refine TreeMap.Equiv.of_forall_constGet?_eq fun a => ?_
    rw [TreeMap.getElem?_erase, TreeMap.getElem?_erase, TreeMap.getElem?_insert]
    split <;> simp_all
  exact (toList_perm_cons_erase TreeMap.getElem?_insert_self).trans
    ((TreeMap.equiv_iff_toList_perm.mp herase).cons _)

/-! ## The contents -/

/-- Everything the values of a map hold, by multiplicity. -/
def gather (f : ν → Multiset ι) (t : TreeMap κ ν) : Multiset ι :=
  (t.toList.map fun entry => f entry.2).sum

omit [TransOrd κ] [LawfulEqOrd κ] in
theorem gather_of_perm {f : ν → Multiset ι} {t : TreeMap κ ν} {k : κ} {v : ν}
    {rest : List (κ × ν)} (h : t.toList.Perm ((k, v) :: rest)) :
    gather f t = f v + (rest.map fun entry => f entry.2).sum := by
  simpa [gather] using (h.map fun entry => f entry.2).sum_eq

omit [TransOrd κ] [LawfulEqOrd κ] in
@[simp] theorem gather_empty (f : ν → Multiset ι) : gather f ({} : TreeMap κ ν) = 0 := rfl

theorem gather_insert_none {t : TreeMap κ ν} {k : κ} (f : ν → Multiset ι) (h : t[k]? = none)
    (w : ν) : gather f (t.insert k w) = f w + gather f t :=
  gather_of_perm (toList_insert_perm_cons h w)

theorem gather_erase {t : TreeMap κ ν} {k : κ} {v : ν} (f : ν → Multiset ι)
    (h : t[k]? = some v) : gather f t = f v + gather f (t.erase k) :=
  gather_of_perm (toList_perm_cons_erase h)

theorem gather_insert (f : ν → Multiset ι) (t : TreeMap κ ν) (k : κ) (w : ν) :
    gather f (t.insert k w) = f w + gather f (t.erase k) :=
  gather_of_perm (toList_insert_perm_erase t k w)

/-- Maps with the same entries hold the same. -/
theorem gather_congr {t t' : TreeMap κ ν} (f : ν → Multiset ι) (h : ∀ k : κ, t'[k]? = t[k]?) :
    gather f t' = gather f t := by
  have hequiv : t'.Equiv t := TreeMap.Equiv.of_forall_constGet?_eq h
  exact ((TreeMap.equiv_iff_toList_perm.mp hequiv).map fun entry => f entry.2).sum_eq

/-! ## The contents of a list of holders -/

omit [Ord κ] [TransOrd κ] [LawfulEqOrd κ] in
theorem sum_map_eq_of_getElem? {l : List ν} {i : Nat} {v : ν} (f : ν → Multiset ι)
    (h : l[i]? = some v) : (l.map f).sum = f v + ((l.eraseIdx i).map f).sum := by
  induction l generalizing i with
  | nil => simp at h
  | cons head rest ih =>
      cases i with
      | zero =>
          have hv : head = v := by simpa using h
          simp [hv]
      | succ i =>
          have hrest : rest[i]? = some v := by simpa using h
          simp only [List.map_cons, List.sum_cons, List.eraseIdx_cons_succ, ih hrest]
          abel

theorem sum_map_set {l : List ν} {i : Nat} {v : ν} (f : ν → Multiset ι) (h : l[i]? = some v)
    (w : ν) : ((l.set i w).map f).sum = f w + ((l.eraseIdx i).map f).sum := by
  have hlt : i < l.length := by
    by_contra hge
    rw [List.getElem?_eq_none (by omega)] at h
    exact absurd h (by simp)
  have hset : (l.set i w)[i]? = some w := by simp [hlt]
  have herase : (l.set i w).eraseIdx i = l.eraseIdx i := List.eraseIdx_set_eq
  rw [sum_map_eq_of_getElem? f hset, herase]

end Motus.Foundation
