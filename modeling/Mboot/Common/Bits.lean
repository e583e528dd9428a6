import Mathlib

/-!
# Masks and signed words
-/

namespace Mboot.Common

/-- Masking with the high bits of a `w`-bit word rounds down to a multiple of
    `2 ^ k`. -/
theorem and_high_mask {n w k : ℕ} (hn : n < 2 ^ w) (hk : k ≤ w) :
    n &&& (2 ^ w - 2 ^ k) = n / 2 ^ k * 2 ^ k := by
  apply Nat.eq_of_testBit_eq
  intro i
  have hpos : 0 < 2 ^ k := Nat.two_pow_pos k
  have hle : 2 ^ k ≤ 2 ^ w := Nat.pow_le_pow_right (by norm_num) hk
  have hmask : 2 ^ w - 2 ^ k = 2 ^ w - ((2 ^ k - 1) + 1) := by omega
  rw [Nat.testBit_and, hmask, Nat.testBit_two_pow_sub_succ (by omega), Nat.testBit_two_pow_sub_one,
    Nat.testBit_mul_two_pow, Nat.testBit_div_two_pow]
  by_cases hi : i < w
  · by_cases hik : i < k
    · simp [hik]
    · simp [hi, hik, Nat.le_of_not_lt hik]
  · have hbit : n.testBit i = false :=
      Nat.testBit_lt_two_pow (hn.trans_le (Nat.pow_le_pow_right (by norm_num) (by omega)))
    by_cases hik : k ≤ i <;> simp [hbit, hik]

/-- A bit is set iff it is odd as the lowest digit. -/
theorem and_two_pow_ne_zero {n k : ℕ} : n &&& 2 ^ k ≠ 0 ↔ n / 2 ^ k % 2 = 1 := by
  rw [Nat.and_two_pow, Nat.testBit_eq_decide_div_mod_eq]
  by_cases h : n / 2 ^ k % 2 = 1 <;> simp [h]

/-- Setting bits below the lowest bit of a number adds them. -/
theorem or_low {n k b : ℕ} (hn : n % 2 ^ k = 0) (hb : b < 2 ^ k) : n ||| b = n + b := by
  obtain ⟨a, rfl⟩ := Nat.dvd_of_mod_eq_zero hn
  exact (Nat.two_pow_add_eq_or_of_lt hb a).symm

theorem or_one_of_odd {n : ℕ} (hn : n % 2 = 1) : n ||| 1 = n := by
  have hsplit : n / 2 * 2 ||| 1 = n := by
    rw [or_low (k := 1) (by omega) (by norm_num)]
    omega
  calc n ||| 1 = n / 2 * 2 ||| 1 ||| 1 := by rw [hsplit]
    _ = n / 2 * 2 ||| 1 := by rw [Nat.or_assoc, Nat.or_self]
    _ = n := hsplit

/-- The two's complement of a negative word is its absolute value, also that of the
    smallest one. -/
theorem toNat_neg_eq_natAbs {w : ℕ} {n : BitVec w} (h : n.toInt < 0) :
    (-n).toNat = n.toInt.natAbs := by
  have hlt := n.isLt
  have hpos : 0 < n.toNat := by
    rw [BitVec.toInt_eq_toNat_cond] at h
    split_ifs at h <;> omega
  rw [BitVec.toNat_neg, Nat.mod_eq_of_lt (by omega)]
  rw [BitVec.toInt_eq_toNat_cond] at h ⊢
  split_ifs at h ⊢ <;> omega

theorem toNat_eq_natAbs {w : ℕ} {n : BitVec w} (h : ¬ n.toInt < 0) :
    n.toNat = n.toInt.natAbs := by
  have hlt := n.isLt
  rw [BitVec.toInt_eq_toNat_cond] at h ⊢
  split_ifs at h ⊢ <;> omega

end Mboot.Common
