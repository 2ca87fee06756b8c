import Mathlib.Data.List.Nodup

/-!
# Sorting by a number

Hints are merged by their lines and ranges by their first lines. Where these numbers are distinct there
is only one order in which they increase, so it does not matter in which order the values are gathered.
-/

namespace Conditionals

variable {α : Type} (key : α → Nat)

theorem mergeSort_sorted (values : List α) :
    (values.mergeSort fun first second => key first ≤ key second).Pairwise fun first second =>
      key first ≤ key second := by
  refine (List.pairwise_mergeSort ?_ ?_ values).imp of_decide_eq_true
  · simp only [decide_eq_true_eq]
    omega
  · simp only [Bool.or_eq_true, decide_eq_true_eq]
    omega

theorem mergeSort_eq {values increasing : List α} (gathered : values.Perm increasing)
    (strict : increasing.Pairwise fun first second => key first < key second) :
    values.mergeSort (fun first second => key first ≤ key second) = increasing := by
  have distinct : (increasing.map key).Nodup := List.pairwise_map.mpr (strict.imp Nat.ne_of_lt)
  refine List.Perm.eq_of_pairwise ?_ (mergeSort_sorted key values) (strict.imp Nat.le_of_lt)
    ((List.mergeSort_perm _ _).trans gathered)
  intro left right sorted member before after
  have listed := gathered.subset (List.mem_mergeSort.mp sorted)
  exact List.inj_on_of_nodup_map distinct listed member (Nat.le_antisymm before after)

end Conditionals
