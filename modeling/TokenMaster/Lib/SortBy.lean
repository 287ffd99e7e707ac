import Mathlib.Data.List.Sort

/-!
# TokenMaster.Lib.SortBy — sorting by a key

Where elements with one key are equal, the result depends on the elements alone and not on their
order.
-/

namespace TokenMaster

variable {α κ : Type} [LinearOrder κ] {key : α → κ}

def sortBy (key : α → κ) (l : List α) : List α := l.insertionSort fun a b => key a ≤ key b

theorem sortBy_perm (key : α → κ) (l : List α) :
    (sortBy key l).Perm l := List.perm_insertionSort _ l

theorem mem_sortBy {l : List α} {a : α} : a ∈ sortBy key l ↔ a ∈ l :=
  (sortBy_perm key l).mem_iff

theorem sortBy_sorted (key : α → κ) (l : List α) :
    (sortBy key l).Pairwise fun a b => key a ≤ key b := by
  exact List.pairwise_insertionSort _ l

theorem sortBy_congr {l l' : List α} (h : l.Perm l')
    (hkey : ∀ a ∈ l, ∀ b ∈ l, key a = key b → a = b) : sortBy key l = sortBy key l' := by
  refine List.Perm.eq_of_pairwise ?_ (sortBy_sorted key l) (sortBy_sorted key l') ?_
  · intro a b ha hb hab hba
    refine hkey a (mem_sortBy.mp ha) b ?_ (le_antisymm hab hba)
    exact h.mem_iff.mpr (mem_sortBy.mp hb)
  · exact ((sortBy_perm key l).trans h).trans (sortBy_perm key l').symm

end TokenMaster
