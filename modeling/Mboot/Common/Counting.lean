import Mathlib

/-!
# Finite sums

A sum over a table changes by the entry that is replaced; the statement is
additive on both sides, so that it can be used in the natural numbers without
subtraction. A sum over rows and columns is a sum over all cells.
-/

namespace Mboot.Common

variable {ι α M : Type*} [AddCommMonoid M] {S : Finset ι} {i : ι}

/-- The sum of the weights of a table when entry `i` becomes `v`. -/
theorem sum_update_add [DecidableEq ι] (G : α → M) (f : ι → α) (v : α) (hi : i ∈ S) :
    ∑ j ∈ S, G (Function.update f i v j) + G (f i) = ∑ j ∈ S, G (f j) + G v := by
  have hrest : ∑ j ∈ S.erase i, G (Function.update f i v j) = ∑ j ∈ S.erase i, G (f j) :=
    Finset.sum_congr rfl fun j hj => by rw [Function.update_of_ne (Finset.ne_of_mem_erase hj)]
  rw [← Finset.add_sum_erase S _ hi, ← Finset.add_sum_erase S (fun j => G (f j)) hi, hrest,
    Function.update_self]
  abel

theorem sum_range_mul (f : ℕ → M) (k n : ℕ) :
    ∑ i ∈ Finset.range n, ∑ j ∈ Finset.range k, f (k * i + j) = ∑ p ∈ Finset.range (k * n), f p := by
  induction n with
  | zero => simp
  | succ n ih => rw [Finset.sum_range_succ, ih, mul_add, mul_one, Finset.sum_range_add]

end Mboot.Common
