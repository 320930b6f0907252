import Mathlib.Algebra.BigOperators.Group.Finset.Piecewise
import Mathlib.Algebra.Order.BigOperators.Group.Finset

/-!
# Sums over a table

What one changed entry does to a sum over all entries of a table.
-/

namespace Xv6

theorem sum_update_add {ι α : Type*} [DecidableEq ι] {indices : Finset ι} {table : ι → α}
    {index : ι} {value : α} (weight : α → Nat) (member : index ∈ indices) :
    ∑ i ∈ indices, weight (Function.update table index value i) + weight (table index) =
      ∑ i ∈ indices, weight (table i) + weight value := by
  have changed : (fun i => weight (Function.update table index value i)) =
      Function.update (fun i => weight (table i)) index (weight value) :=
    Function.comp_update weight table index value
  rw [changed, Finset.sum_update_of_mem member, Finset.sdiff_singleton_eq_erase,
    ← Finset.add_sum_erase _ _ member]
  omega

theorem add_le_sum_of_ne {ι : Type*} [DecidableEq ι] {indices : Finset ι} {first second : ι}
    (weight : ι → Nat) (isFirst : first ∈ indices) (isSecond : second ∈ indices)
    (differ : first ≠ second) : weight first + weight second ≤ ∑ i ∈ indices, weight i := by
  rw [← Finset.sum_pair differ]
  refine Finset.sum_le_sum_of_subset fun i member => ?_
  rcases Finset.mem_insert.mp member with rfl | member
  · exact isFirst
  · exact Finset.mem_singleton.mp member ▸ isSecond

end Xv6
