/-
  Sums of balances over finitely many holders.

  Changing one balance changes the sum by the difference (`total_update`), and one or
  two balances are at most the sum.
-/
import Mathlib.Algebra.BigOperators.Group.Finset.Piecewise
import Mathlib.Algebra.Order.BigOperators.Group.Finset
import Mathlib.Data.Fintype.Basic

namespace Ledger

open Function

variable {ι : Type} [Fintype ι] [DecidableEq ι] {f : ι → ℕ}

/-- The sum of all balances. -/
def total (f : ι → ℕ) : ℕ := ∑ i, f i

omit [DecidableEq ι] in
theorem total_congr {g : ι → ℕ} (h : ∀ i, f i = g i) : total f = total g :=
  Finset.sum_congr rfl fun i _ => h i

omit [DecidableEq ι] in
theorem total_zero : total (fun _ : ι => 0) = 0 := Finset.sum_const_zero

/-- The sum is one balance and the others. -/
theorem total_eq_add (f : ι → ℕ) (i : ι) : total f = f i + ∑ j ∈ Finset.univ.erase i, f j :=
  (Finset.add_sum_erase _ f (Finset.mem_univ i)).symm

theorem total_update (f : ι → ℕ) (i : ι) (v : ℕ) : total (update f i v) + f i = total f + v := by
  have h : ∑ j ∈ Finset.univ.erase i, update f i v j = ∑ j ∈ Finset.univ.erase i, f j :=
    Finset.sum_congr rfl fun j hj => update_of_ne (Finset.ne_of_mem_erase hj) v f
  rw [total_eq_add f i, total_eq_add _ i, h, update_self]
  omega

omit [DecidableEq ι] in
theorem le_total (f : ι → ℕ) (i : ι) : f i ≤ total f :=
  Finset.single_le_sum (fun _ _ => Nat.zero_le _) (Finset.mem_univ i)

theorem add_le_total (f : ι → ℕ) {i j : ι} (h : i ≠ j) : f i + f j ≤ total f := by
  have hj : f j ≤ ∑ k ∈ Finset.univ.erase i, f k :=
    Finset.single_le_sum (fun _ _ => Nat.zero_le _) (Finset.mem_erase.2 ⟨h.symm, Finset.mem_univ j⟩)
  rw [total_eq_add f i]
  omega

end Ledger
