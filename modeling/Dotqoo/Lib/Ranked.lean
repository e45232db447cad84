import Mathlib.Data.List.Sort

/-!
# The heaviest first

Sorting by falling weight, where elements of one weight stay in their order. Three facts
say which list that is: it has the same elements (`ranked_perm`), the weights fall
(`pairwise_ranked`), and the elements of each weight are those of the list, in its order
(`filter_ranked`).
-/

namespace Dotqoo.Lib

variable {α : Type} (weight : α → Nat)

/-- The elements by falling weight. -/
def ranked (l : List α) : List α := l.mergeSort fun a b => decide (weight b ≤ weight a)

theorem ranked_perm (l : List α) : (ranked weight l).Perm l := List.mergeSort_perm ..

@[simp] theorem length_ranked (l : List α) : (ranked weight l).length = l.length :=
  (ranked_perm weight l).length_eq

/-- The comparison is one that a merge sort can use. -/
theorem falling_trans (a b c : α) (hab : decide (weight b ≤ weight a) = true)
    (hbc : decide (weight c ≤ weight b) = true) : decide (weight c ≤ weight a) = true := by
  simp only [decide_eq_true_eq] at hab hbc ⊢
  exact le_trans hbc hab

theorem falling_total (a b : α) :
    (decide (weight b ≤ weight a) || decide (weight a ≤ weight b)) = true := by
  simp only [Bool.or_eq_true, decide_eq_true_eq]
  exact le_total _ _

theorem pairwise_ranked (l : List α) :
    (ranked weight l).Pairwise fun a b => weight b ≤ weight a := by
  have hsorted := List.pairwise_mergeSort (falling_trans weight) (falling_total weight) l
  exact hsorted.imp fun h => of_decide_eq_true h

/-- The elements of one weight stay in their order. -/
theorem filter_ranked (l : List α) (w : Nat) :
    (ranked weight l).filter (fun a => weight a = w) = l.filter fun a => weight a = w := by
  have hperm := (ranked_perm weight l).filter fun a => decide (weight a = w)
  -- they are sorted as they stand, and a sorted sublist stays one
  have hsorted : (l.filter fun a => weight a = w).Pairwise
      fun a b => decide (weight b ≤ weight a) = true := by
    refine List.Pairwise.imp_of_mem (R := fun _ _ => True) (fun ha hb _ => ?_)
      (List.pairwise_of_forall fun _ _ => trivial)
    have hwa := of_decide_eq_true (List.mem_filter.mp ha).2
    have hwb := of_decide_eq_true (List.mem_filter.mp hb).2
    exact decide_eq_true (hwb.trans hwa.symm).le
  have hsub : (l.filter fun a => weight a = w).Sublist (ranked weight l) :=
    List.sublist_mergeSort (falling_trans weight) (falling_total weight) hsorted
      List.filter_sublist
  have hfilter := hsub.filter fun a => decide (weight a = w)
  rw [List.filter_filter] at hfilter
  simp only [Bool.and_self] at hfilter
  exact (hfilter.eq_of_length hperm.length_eq.symm).symm

end Dotqoo.Lib
