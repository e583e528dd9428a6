import Mathlib

/-!
# One's-complement sums

Sums of digits in base `b` with end-around carry. Folding the carry back until
one digit is left computes the representative of the sum in `1 … b - 1`, with
0 only for the empty sum (`foldCarry_eq`); a sum to which the complement of its
own fold has been added folds to `b - 1` (`foldCarry_add_complement`).
-/

namespace Mboot.Common

/-- At most `fuel` rounds of adding the carry `s / b` to the digit `s % b`. -/
def foldCarryLoop (b : ℕ) : ℕ → ℕ → ℕ
  | 0, s => s
  | fuel + 1, s => if s / b ≠ 0 then foldCarryLoop b fuel (s % b + s / b) else s

/-- Add the carry back until one digit is left. Every round makes the number
    smaller, so `s` rounds are enough. -/
def foldCarry (b s : ℕ) : ℕ := foldCarryLoop b s s

/-- The representative of `s` modulo `m` in `1 … m`, and 0 for 0. -/
def onesRep (m s : ℕ) : ℕ := if s = 0 then 0 else (s - 1) % m + 1

theorem onesRep_of_le {m s : ℕ} (h : s ≤ m) : onesRep m s = s := by
  unfold onesRep
  split_ifs with h0
  · exact h0.symm
  · rw [Nat.mod_eq_of_lt (by omega)]
    omega

theorem onesRep_le {m : ℕ} (hm : 0 < m) (s : ℕ) : onesRep m s ≤ m := by
  have := Nat.mod_lt (s - 1) hm
  unfold onesRep
  split_ifs <;> omega

theorem onesRep_add_mul {m s : ℕ} (k : ℕ) (h : 0 < s) : onesRep m (s + m * k) = onesRep m s := by
  unfold onesRep
  rw [if_neg (by omega), if_neg (by omega), show s + m * k - 1 = s - 1 + m * k by omega,
    Nat.add_mul_mod_self_left]

/-- One round of folding keeps the representative. -/
theorem onesRep_fold_step {b s : ℕ} (hb : 2 ≤ b) (h : s / b ≠ 0) :
    onesRep (b - 1) (s % b + s / b) = onesRep (b - 1) s := by
  have hdiv := Nat.mod_add_div s b
  have hs : s = s % b + s / b + (b - 1) * (s / b) := by
    obtain ⟨m, rfl⟩ : ∃ m, b = m + 1 := ⟨b - 1, by omega⟩
    rw [Nat.add_sub_cancel]
    calc s = s % (m + 1) + (m + 1) * (s / (m + 1)) := hdiv.symm
      _ = s % (m + 1) + s / (m + 1) + m * (s / (m + 1)) := by ring
  have hpos : 0 < s % b + s / b := Nat.add_pos_right _ (Nat.pos_of_ne_zero h)
  conv_rhs => rw [hs]
  rw [onesRep_add_mul _ hpos]

theorem foldCarryLoop_eq {b fuel s : ℕ} (hb : 2 ≤ b) (hf : s ≤ fuel) :
    foldCarryLoop b fuel s = onesRep (b - 1) s := by
  induction fuel generalizing s with
  | zero => rw [Nat.le_zero.mp hf]; rfl
  | succ fuel ih =>
    rw [foldCarryLoop]
    split_ifs with h
    · have hpos : 0 < s / b := Nat.pos_of_ne_zero h
      have hlt : s % b + s / b < s := by
        have hdiv := Nat.mod_add_div s b
        have hmul : 2 * (s / b) ≤ b * (s / b) := Nat.mul_le_mul_right _ hb
        omega
      rw [ih (by omega), onesRep_fold_step hb h]
    · have hlt : s < b := by
        rw [not_not, Nat.div_eq_zero_iff] at h
        omega
      rw [onesRep_of_le (by omega)]

/-- Folding the carry computes the representative of the sum. -/
theorem foldCarry_eq {b : ℕ} (hb : 2 ≤ b) (s : ℕ) : foldCarry b s = onesRep (b - 1) s :=
  foldCarryLoop_eq hb le_rfl

/-- A sum folds to all ones if and only if it is a positive multiple of `b - 1`. -/
theorem foldCarry_eq_ones_iff {b s : ℕ} (hb : 2 ≤ b) :
    foldCarry b s = b - 1 ↔ 0 < s ∧ b - 1 ∣ s := by
  rw [foldCarry_eq hb]
  unfold onesRep
  split_ifs with h0
  · constructor
    · intro h
      omega
    · rintro ⟨hpos, -⟩
      omega
  · have hdiv := Nat.mod_add_div (s - 1) (b - 1)
    have hlt := Nat.mod_lt (s - 1) (show 0 < b - 1 by omega)
    constructor
    · intro h
      refine ⟨by omega, (s - 1) / (b - 1) + 1, ?_⟩
      rw [Nat.mul_succ]
      omega
    · rintro ⟨-, k, hk⟩
      obtain ⟨k, rfl⟩ : ∃ j, k = j + 1 :=
        ⟨k - 1, by rcases k with _ | k <;> simp_all⟩
      have hpred : s - 1 = b - 1 - 1 + (b - 1) * k := by
        rw [hk, Nat.mul_succ]
        omega
      rw [hpred, Nat.add_mul_mod_self_left, Nat.mod_eq_of_lt (by omega)]
      omega

/-- Adding the complement of the fold gives a sum that folds to all ones. -/
theorem foldCarry_add_complement {b s : ℕ} (hb : 2 ≤ b) (hs : 0 < s) :
    foldCarry b (s + (b - 1 - foldCarry b s)) = b - 1 := by
  rw [foldCarry_eq hb, foldCarry_eq hb]
  have hle := onesRep_le (show 0 < b - 1 by omega) s
  have hsum : s + (b - 1 - onesRep (b - 1) s) = (b - 1) + (b - 1) * ((s - 1) / (b - 1)) := by
    have hdiv := Nat.mod_add_div (s - 1) (b - 1)
    have hrep : onesRep (b - 1) s = (s - 1) % (b - 1) + 1 := if_neg (by omega)
    omega
  rw [hsum, onesRep_add_mul _ (by omega), onesRep_of_le le_rfl]

/-- Adding all ones to a sum that folds to all ones changes nothing. -/
theorem foldCarry_add_ones {b s : ℕ} (hb : 2 ≤ b) (hs : 0 < s) :
    foldCarry b (s + (b - 1)) = foldCarry b s := by
  have h := onesRep_add_mul (m := b - 1) 1 hs
  rw [foldCarry_eq hb, foldCarry_eq hb, ← h, Nat.mul_one]

end Mboot.Common
