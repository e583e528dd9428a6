import Mboot.Common.Bits
import Mboot.Common.LongDivision

/-!
# 64-bit division

Model of the division helpers the compiler calls on a 32-bit target (`user/src/libc.c`,
lines 1603–1669). `du_int` and `di_int` are the same 64-bit words, read with `toNat` and
`toInt`; negation is that of two's complement, which `__divdi3` also meets at the quotient
`2 ^ 63`.

* `division_helpers_exact`: `__udivmoddi4` returns quotient and remainder, and no
  iteration shifts a bit out of the remainder; `__divdi3` and `__moddi3` truncate toward
  zero.
-/

namespace Mboot.Libc

open Mboot.Common

/-! ## Model -/

/-- The variables of the loop of `__udivmoddi4`. -/
structure DivState where
  a : BitVec 64
  q : BitVec 64
  r : BitVec 64
deriving DecidableEq, Repr

/-- The body of the loop (lines 1613–1619). -/
def udivmodStep (b : BitVec 64) (s : DivState) : DivState :=
  let r := s.r <<< 1 ||| s.a >>> 63
  let a := s.a <<< 1
  let q := s.q <<< 1
  if b ≤ r then ⟨a, q ||| 1, r - b⟩ else ⟨a, q, r⟩

/-- The variables before the iteration with `shift = k` (lines 1607–1612). -/
def udivmodState (a b : BitVec 64) (k : ℕ) : DivState := (udivmodStep b)^[k] ⟨a, 0, 0⟩

/-- `__udivmoddi4` (lines 1605–1624): the value returned, and the one stored through `rem`
    if it is not null. -/
def udivmoddi4 (a b : BitVec 64) : BitVec 64 × BitVec 64 :=
  let s := udivmodState a b 64
  (s.q, s.r)

/-- `__udivdi3` (line 1626). -/
def udivdi3 (a b : BitVec 64) : BitVec 64 := (udivmoddi4 a b).1

/-- `__umoddi3` (lines 1628–1632). -/
def umoddi3 (a b : BitVec 64) : BitVec 64 := (udivmoddi4 a b).2

/-- `ua` and `ub` (lines 1637–1648 and 1656–1666). -/
def magnitude (a : BitVec 64) : BitVec 64 := if a.toInt < 0 then -a else a

/-- `neg ? -(di_int)n : (di_int)n` (lines 1650 and 1668). -/
def applySign (neg : Bool) (n : BitVec 64) : BitVec 64 := if neg then -n else n

/-- `__divdi3` (lines 1634–1651). -/
def divdi3 (a b : BitVec 64) : BitVec 64 :=
  let neg := decide (a.toInt < 0)
  let neg := if b.toInt < 0 then !neg else neg
  applySign neg (udivmoddi4 (magnitude a) (magnitude b)).1

/-- `__moddi3` (lines 1653–1669): the sign is that of the dividend alone. -/
def moddi3 (a b : BitVec 64) : BitVec 64 :=
  applySign (decide (a.toInt < 0)) (udivmoddi4 (magnitude a) (magnitude b)).2

/-! ## The loop -/

section Loop

variable {a b : BitVec 64} {k : ℕ}

/-- The registers of the loop after `k` iterations stand in the relation of long division. -/
def DivState.Divides (a b : BitVec 64) (k : ℕ) (s : DivState) : Prop :=
  Divided 64 a.toNat b.toNat k s.a.toNat s.q.toNat s.r.toNat

namespace DivState.Divides

variable {s : DivState}

/-- The shift of the remainder loses no bit: fewer than 64 were brought down. -/
theorem remainder_lt (h : s.Divides a b k) (hk : k < 64) : s.r.toNat < 2 ^ 63 :=
  calc s.r.toNat < 2 ^ k := h.remainder_lt_two_pow a.isLt hk.le
    _ ≤ 2 ^ 63 := Nat.pow_le_pow_right (by decide) (by omega)

theorem quotient_lt (h : s.Divides a b k) (hk : k < 64) : s.q.toNat < 2 ^ 63 :=
  calc s.q.toNat < 2 ^ k := h.quotient_lt_two_pow a.isLt hk.le
    _ ≤ 2 ^ 63 := Nat.pow_le_pow_right (by decide) (by omega)

end DivState.Divides

theorem toNat_shiftLeft_one (n : BitVec 64) : (n <<< 1).toNat = 2 * n.toNat % 2 ^ 64 := by
  rw [BitVec.toNat_shiftLeft, Nat.shiftLeft_eq, pow_one, Nat.mul_comm]

theorem toNat_shiftLeft_one_of_lt {n : BitVec 64} (hn : n.toNat < 2 ^ 63) :
    (n <<< 1).toNat = 2 * n.toNat := by
  rw [toNat_shiftLeft_one, Nat.mod_eq_of_lt (by omega)]

/-- Bringing down a bit into a remainder that has room for it. -/
theorem toNat_bring_down {r : BitVec 64} (hr : r.toNat < 2 ^ 63) (a : BitVec 64) :
    (r <<< 1 ||| a >>> 63).toNat = 2 * r.toNat + a.toNat / 2 ^ 63 := by
  have hbit : a.toNat / 2 ^ 63 < 2 ^ 1 := by omega
  rw [BitVec.toNat_or, toNat_shiftLeft_one_of_lt hr, BitVec.toNat_ushiftRight,
    Nat.shiftRight_eq_div_pow, or_low (by omega) hbit]

theorem toNat_append_one {q : BitVec 64} (hq : q.toNat < 2 ^ 63) :
    (q <<< 1 ||| 1).toNat = 2 * q.toNat + 1 := by
  rw [BitVec.toNat_or, toNat_shiftLeft_one_of_lt hq]
  exact or_low (k := 1) (by omega) (by decide)

/-- One iteration brings down one bit. -/
theorem divides_step {s : DivState} (h : s.Divides a b k) (hk : k < 64) :
    (udivmodStep b s).Divides a b (k + 1) := by
  have hr := toNat_bring_down (h.remainder_lt hk) s.a
  rw [DivState.Divides, udivmodStep]
  by_cases hfits : b ≤ s.r <<< 1 ||| s.a >>> 63
  · have hsub := BitVec.toNat_sub_of_le hfits
    rw [BitVec.le_def, hr] at hfits
    rw [if_pos (by rwa [BitVec.le_def, hr])]
    simp only [hsub, hr, toNat_shiftLeft_one, toNat_append_one (h.quotient_lt hk)]
    exact h.take hk hfits
  · rw [BitVec.le_def, hr] at hfits
    rw [if_neg (by rwa [BitVec.le_def, hr])]
    simp only [hr, toNat_shiftLeft_one s.a, toNat_shiftLeft_one_of_lt (h.quotient_lt hk)]
    exact h.skip hk (Nat.lt_of_not_le hfits)

/-- Every state the loop goes through. -/
theorem udivmodState_divides (a : BitVec 64) (hb : 0 < b.toNat) (hk : k ≤ 64) :
    (udivmodState a b k).Divides a b k := by
  induction k with
  | zero => exact Divided.start a.isLt hb
  | succ k ih =>
    rw [udivmodState, Function.iterate_succ_apply']
    exact divides_step (ih (by omega)) hk

theorem udivmoddi4_spec (a : BitVec 64) (hb : 0 < b.toNat) :
    a.toNat = (udivmoddi4 a b).1.toNat * b.toNat + (udivmoddi4 a b).2.toNat ∧
      (udivmoddi4 a b).2.toNat < b.toNat :=
  have h := udivmodState_divides a hb le_rfl
  ⟨h.finish, Divided.remainder_lt h⟩

theorem udivmoddi4_toNat (a : BitVec 64) (hb : 0 < b.toNat) :
    a.toNat / b.toNat = (udivmoddi4 a b).1.toNat ∧
      a.toNat % b.toNat = (udivmoddi4 a b).2.toNat := by
  obtain ⟨heq, hlt⟩ := udivmoddi4_spec a hb
  rw [Nat.div_mod_unique hb, Nat.add_comm, Nat.mul_comm]
  exact ⟨heq.symm, hlt⟩

end Loop

/-! ## Signs -/

theorem toNat_magnitude (a : BitVec 64) : (magnitude a).toNat = a.toInt.natAbs := by
  rw [magnitude]
  split_ifs with h
  · exact toNat_neg_eq_natAbs h
  · exact toNat_eq_natAbs h

/-- A magnitude of at most `2 ^ 63` is negated exactly, one below it is its own value. -/
theorem toInt_applySign {neg : Bool} {n : BitVec 64} (hn : n.toNat ≤ 2 ^ 63)
    (hpos : neg = false → n.toNat < 2 ^ 63) :
    (applySign neg n).toInt = if neg then -(n.toNat : ℤ) else n.toNat := by
  cases neg with
  | false =>
    have hlt := hpos rfl
    show n.toInt = n.toNat
    exact BitVec.toInt_eq_toNat_of_lt (by omega)
  | true =>
    simp only [applySign, if_true]
    rw [BitVec.toInt_eq_toNat_cond, BitVec.toNat_neg]
    split_ifs <;> omega

/-- The unsigned helper on the magnitudes. -/
theorem udivmoddi4_magnitude (a : BitVec 64) {b : BitVec 64} (hb : b.toInt ≠ 0) :
    (udivmoddi4 (magnitude a) (magnitude b)).1.toNat = a.toInt.natAbs / b.toInt.natAbs ∧
      (udivmoddi4 (magnitude a) (magnitude b)).2.toNat = a.toInt.natAbs % b.toInt.natAbs := by
  have hpos : 0 < (magnitude b).toNat := by
    rw [toNat_magnitude]
    exact Int.natAbs_pos.mpr hb
  obtain ⟨hq, hr⟩ := udivmoddi4_toNat (magnitude a) hpos
  rw [toNat_magnitude, toNat_magnitude] at hq hr
  exact ⟨hq.symm, hr.symm⟩

theorem natAbs_toInt_le (a : BitVec 64) : a.toInt.natAbs ≤ 2 ^ 63 := by
  have hlt := a.isLt
  rw [BitVec.toInt_eq_toNat_cond]
  split_ifs <;> omega

/-- A quotient of `2 ^ 63` is that of the smallest number by `1` or `-1`. -/
theorem quotient_lt_of_same_sign {a b : BitVec 64}
    (hmin : ¬ (a.toInt = -2 ^ 63 ∧ b.toInt = -1))
    (hsign : a.toInt < 0 ↔ b.toInt < 0) : a.toInt.natAbs / b.toInt.natAbs < 2 ^ 63 := by
  have ha := natAbs_toInt_le a
  by_cases hsmall : a.toInt.natAbs < 2 ^ 63
  · exact (Nat.div_le_self _ _).trans_lt hsmall
  · have hneg : a.toInt = -2 ^ 63 := by
      have hbound := BitVec.toInt_lt (x := a)
      omega
    have hdivisor : 1 < b.toInt.natAbs := by
      have hb : b.toInt < 0 := hsign.mp (by omega)
      omega
    exact (Nat.div_lt_self (by omega) hdivisor).trans_le ha

theorem toInt_divdi3 {a b : BitVec 64} (hb : b.toInt ≠ 0)
    (hmin : ¬ (a.toInt = -2 ^ 63 ∧ b.toInt = -1)) :
    (divdi3 a b).toInt = a.toInt.tdiv b.toInt := by
  have hq := (udivmoddi4_magnitude a hb).1
  have hle : a.toInt.natAbs / b.toInt.natAbs ≤ 2 ^ 63 :=
    (Nat.div_le_self _ _).trans (natAbs_toInt_le a)
  have hlt := quotient_lt_of_same_sign hmin
  rw [divdi3, toInt_applySign, hq, tdiv_eq_natAbs]
  · rw [hq]
    exact hle
  · intro hneg
    rw [hq]
    apply hlt
    split_ifs at hneg with hb'
    · exact iff_of_true (by simpa using hneg) hb'
    · exact iff_of_false (of_decide_eq_false hneg) hb'

theorem toInt_moddi3 (a : BitVec 64) {b : BitVec 64} (hb : b.toInt ≠ 0) :
    (moddi3 a b).toInt = a.toInt.tmod b.toInt := by
  have hr := (udivmoddi4_magnitude a hb).2
  have hlt : a.toInt.natAbs % b.toInt.natAbs < 2 ^ 63 :=
    (Nat.mod_lt _ (Int.natAbs_pos.mpr hb)).trans_le (natAbs_toInt_le b)
  rw [← hr] at hlt
  rw [moddi3, toInt_applySign hlt.le fun _ => hlt, hr, tmod_eq_natAbs]

/-! ## Main result -/

theorem division_helpers_exact (a b : BitVec 64) (hb : b ≠ 0) :
    (a.toNat = (udivmoddi4 a b).1.toNat * b.toNat + (udivmoddi4 a b).2.toNat ∧
      (udivmoddi4 a b).2.toNat < b.toNat) ∧
    (udivdi3 a b).toNat = a.toNat / b.toNat ∧
    (umoddi3 a b).toNat = a.toNat % b.toNat ∧
    (∀ k < 64, (udivmodState a b k).r.toNat < 2 ^ 63) ∧
    (¬ (a.toInt = -2 ^ 63 ∧ b.toInt = -1) →
      (divdi3 a b).toInt = a.toInt.tdiv b.toInt ∧
      (moddi3 a b).toInt = a.toInt.tmod b.toInt ∧
      a.toInt = (divdi3 a b).toInt * b.toInt + (moddi3 a b).toInt ∧
      (moddi3 a b).toInt.natAbs < b.toInt.natAbs ∧
      ((moddi3 a b).toInt ≠ 0 → (moddi3 a b).toInt.sign = a.toInt.sign)) := by
  have hpos : 0 < b.toNat := Nat.pos_of_ne_zero fun h => hb (BitVec.eq_of_toNat_eq h)
  have hbInt : b.toInt ≠ 0 := fun h => hb (BitVec.eq_of_toInt_eq h)
  obtain ⟨hdiv, hmod⟩ := udivmoddi4_toNat a hpos
  refine ⟨udivmoddi4_spec a hpos, hdiv.symm, hmod.symm, ?_, ?_⟩
  · intro k hk
    exact (udivmodState_divides a hpos hk.le).remainder_lt hk
  · intro hmin
    rw [toInt_divdi3 hbInt hmin, toInt_moddi3 a hbInt]
    refine ⟨rfl, rfl, (Int.tdiv_mul_add_tmod _ _).symm, ?_, ?_⟩
    · rw [Int.natAbs_tmod]
      exact Nat.mod_lt _ (Int.natAbs_pos.mpr hbInt)
    · intro hne
      rw [Int.sign_tmod, if_neg]
      intro hdvd
      exact hne (Int.dvd_iff_tmod_eq_zero.mp hdvd)

/-- A divisor above `2 ^ 63`. As signed numbers, `-1` is divided by `1 - 2 ^ 63`. -/
theorem division_helpers_exact_large_divisor :
    (udivdi3 0xFFFFFFFFFFFFFFFF 0x8000000000000001).toNat = 1 ∧
    (umoddi3 0xFFFFFFFFFFFFFFFF 0x8000000000000001).toNat = 2 ^ 63 - 2 ∧
    (divdi3 0xFFFFFFFFFFFFFFFF 0x8000000000000001).toInt = 0 ∧
    (moddi3 0xFFFFFFFFFFFFFFFF 0x8000000000000001).toInt = -1 := by
  obtain ⟨-, hq, hr, -, hsigned⟩ :=
    division_helpers_exact 0xFFFFFFFFFFFFFFFF 0x8000000000000001 (by decide)
  obtain ⟨hdiv, hmod, -⟩ := hsigned (by decide)
  exact ⟨hq.trans (by decide), hr.trans (by decide), hdiv.trans (by decide),
    hmod.trans (by decide)⟩

end Mboot.Libc
