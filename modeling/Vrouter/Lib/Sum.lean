import Mathlib.Algebra.BigOperators.Group.Finset.Basic
import Mathlib.Tactic.Abel

/-! # Sums of which one term changes

A total that is kept up to date one term at a time: the sum after a change and the old term are
together the sum before it and the new term. -/

namespace Vrouter.Lib

variable {ι M : Type} [DecidableEq ι] [AddCommMonoid M] {a : Finset ι} {i : ι}

/-- One term of a sum changes. -/
theorem sum_change (f f' : ι → M) (hi : i ∈ a) (h : ∀ j, j ≠ i → f' j = f j) :
    (∑ j ∈ a, f' j) + f i = (∑ j ∈ a, f j) + f' i := by
  have hrest : ∑ j ∈ a.erase i, f' j = ∑ j ∈ a.erase i, f j :=
    Finset.sum_congr rfl fun j hj => h j (Finset.ne_of_mem_erase hj)
  rw [← Finset.add_sum_erase _ _ hi, ← Finset.add_sum_erase _ f hi, hrest]
  abel

end Vrouter.Lib
