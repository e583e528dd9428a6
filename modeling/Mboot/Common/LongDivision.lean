import Mathlib

/-!
# Binary long division

A dividend `A` of `w` bits is divided by `b` one bit at a time: each step brings down the
top bit of what is left of the dividend, subtracts the divisor if it fits and appends the
resulting bit to the quotient. `Divided w A b k a q r` relates the three registers to the
numbers after `k` steps; it is kept by both outcomes of a step and names quotient and
remainder after `w` of them. The remainder has at most as many bits as were brought down,
so a register of `w` bits holds it shifted, whatever the divisor is.
-/

namespace Mboot.Common

/-- The leading bits of a number and the next one: `A * 2 ^ k % 2 ^ w` is what a register
    of `w` bits holds after `k` bits were shifted out. -/
theorem div_two_pow_bring_down (A : ℕ) {w k : ℕ} (hk : k < w) :
    A / 2 ^ (w - (k + 1)) = 2 * (A / 2 ^ (w - k)) + A * 2 ^ k % 2 ^ w / 2 ^ (w - 1) := by
  obtain ⟨m, rfl⟩ := Nat.exists_eq_add_of_lt hk
  have hrest : k + m + 1 - (k + 1) = m := by omega
  have hleft : k + m + 1 - k = m + 1 := by omega
  have hregister : A * 2 ^ k % 2 ^ (k + m + 1) = A % 2 ^ (m + 1) * 2 ^ k := by
    rw [Nat.add_assoc, Nat.add_comm k, pow_add 2 (m + 1) k, Nat.mul_mod_mul_right]
  have hbit : A % 2 ^ (m + 1) * 2 ^ k / 2 ^ (k + m) = A / 2 ^ m % 2 := by
    rw [pow_add 2 k m, Nat.mul_comm (2 ^ k), Nat.mul_div_mul_right _ _ (Nat.two_pow_pos k),
      pow_succ, Nat.mod_mul_right_div_self]
  have hhalf : A / 2 ^ (m + 1) = A / 2 ^ m / 2 := by rw [pow_succ, Nat.div_div_eq_div_mul]
  rw [hrest, hleft, Nat.add_sub_cancel, hregister, hbit, hhalf, Nat.div_add_mod]

/-- The registers after `k` of `w` steps: `a` holds what is left of the dividend, `q` and
    `r` are quotient and remainder of the bits brought down. -/
structure Divided (w A b k a q r : ℕ) : Prop where
  rest : a = A * 2 ^ k % 2 ^ w
  leading : A / 2 ^ (w - k) = q * b + r
  remainder_lt : r < b

namespace Divided

variable {w A b k a q r : ℕ}

theorem start (hA : A < 2 ^ w) (hb : 0 < b) : Divided w A b 0 A 0 0 where
  rest := by rw [pow_zero, Nat.mul_one, Nat.mod_eq_of_lt hA]
  leading := by rw [Nat.sub_zero, Nat.div_eq_of_lt hA, Nat.zero_mul]
  remainder_lt := hb

theorem leading_lt (hA : A < 2 ^ w) (hk : k ≤ w) : A / 2 ^ (w - k) < 2 ^ k := by
  apply Nat.div_lt_of_lt_mul
  rwa [← pow_add, Nat.sub_add_cancel hk]

/-- The remainder has no more bits than were brought down. -/
theorem remainder_lt_two_pow (h : Divided w A b k a q r) (hA : A < 2 ^ w) (hk : k ≤ w) :
    r < 2 ^ k := by
  have hlead := leading_lt hA hk
  rw [h.leading] at hlead
  omega

theorem quotient_lt_two_pow (h : Divided w A b k a q r) (hA : A < 2 ^ w) (hk : k ≤ w) :
    q < 2 ^ k := by
  have hlead := leading_lt hA hk
  have hb : 0 < b := Nat.zero_lt_of_lt h.remainder_lt
  have hle : q ≤ q * b := Nat.le_mul_of_pos_right q hb
  rw [h.leading] at hlead
  omega

theorem rest_succ (h : Divided w A b k a q r) : 2 * a % 2 ^ w = A * 2 ^ (k + 1) % 2 ^ w := by
  rw [h.rest, Nat.mul_mod_mod, pow_succ', Nat.mul_left_comm]

theorem leading_succ (h : Divided w A b k a q r) (hk : k < w) :
    A / 2 ^ (w - (k + 1)) = 2 * q * b + (2 * r + a / 2 ^ (w - 1)) := by
  rw [div_two_pow_bring_down A hk, ← h.rest, h.leading, Nat.mul_add, Nat.mul_assoc, Nat.add_assoc]

/-- The bit brought down. -/
theorem top_lt_two (h : Divided w A b k a q r) (hk : k < w) : a / 2 ^ (w - 1) < 2 := by
  apply Nat.div_lt_of_lt_mul
  rw [← pow_succ, Nat.sub_add_cancel (by omega), h.rest]
  exact Nat.mod_lt _ (Nat.two_pow_pos w)

/-- The divisor does not fit. -/
theorem skip (h : Divided w A b k a q r) (hk : k < w) (hr : 2 * r + a / 2 ^ (w - 1) < b) :
    Divided w A b (k + 1) (2 * a % 2 ^ w) (2 * q) (2 * r + a / 2 ^ (w - 1)) where
  rest := h.rest_succ
  leading := h.leading_succ hk
  remainder_lt := hr

/-- The divisor fits once. -/
theorem take (h : Divided w A b k a q r) (hk : k < w) (hr : b ≤ 2 * r + a / 2 ^ (w - 1)) :
    Divided w A b (k + 1) (2 * a % 2 ^ w) (2 * q + 1) (2 * r + a / 2 ^ (w - 1) - b) where
  rest := h.rest_succ
  leading := by rw [h.leading_succ hk, Nat.add_mul, Nat.one_mul]; omega
  remainder_lt := by
    have hlt := h.remainder_lt
    have htop := h.top_lt_two hk
    omega

/-- After all steps `q` and `r` are quotient and remainder of the dividend. -/
theorem finish (h : Divided w A b w a q r) : A = q * b + r := by
  have hlead := h.leading
  rwa [Nat.sub_self, pow_zero, Nat.div_one] at hlead

end Divided

/-! ## Signed division -/

/-- Truncated division by sign and magnitude. -/
theorem tdiv_eq_natAbs (a b : ℤ) :
    a.tdiv b = if (if b < 0 then !decide (a < 0) else decide (a < 0)) then
      -((a.natAbs / b.natAbs : ℕ) : ℤ) else (a.natAbs / b.natAbs : ℕ) := by
  rw [Int.ofNat_tdiv]
  rcases lt_or_ge a 0 with ha | ha <;> rcases lt_or_ge b 0 with hb | hb
  · simp [Int.ofNat_natAbs_of_nonpos ha.le, Int.ofNat_natAbs_of_nonpos hb.le, ha, hb]
  · simp [Int.ofNat_natAbs_of_nonpos ha.le, Int.natAbs_of_nonneg hb, ha, hb.not_gt]
  · simp [Int.natAbs_of_nonneg ha, Int.ofNat_natAbs_of_nonpos hb.le, ha.not_gt, hb]
  · simp [Int.natAbs_of_nonneg ha, Int.natAbs_of_nonneg hb, ha.not_gt, hb.not_gt]

/-- The remainder of truncated division has the sign of the dividend. -/
theorem tmod_eq_natAbs (a b : ℤ) :
    a.tmod b = if decide (a < 0) then -((a.natAbs % b.natAbs : ℕ) : ℤ)
      else (a.natAbs % b.natAbs : ℕ) := by
  rw [← Int.natAbs_tmod]
  rcases lt_or_ge a 0 with ha | ha
  · have hneg : 0 ≤ (-a).tmod b := Int.tmod_nonneg b (by omega)
    rw [Int.neg_tmod] at hneg
    rw [if_pos (decide_eq_true ha), Int.ofNat_natAbs_of_nonpos (by omega), neg_neg]
  · rw [if_neg (by simpa using ha), Int.natAbs_of_nonneg (Int.tmod_nonneg b ha)]

end Mboot.Common
