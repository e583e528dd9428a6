import Mathlib

/-!
# Rearranging a range of an array

An array is a function from indices to elements. `Rearranged lo up a b` says that `b` is
`a` with the elements from `lo` up to, but not including, `up` in another order; swaps
inside the range are of this kind, and the relation composes.

* `Rearranged.forall`: what all elements of the range satisfy, they satisfy afterwards.
* `Rearranged.perm`: the list of the elements is permuted.
* `Split`: the invariant of a partition loop with its pivot in the first place; a step
  keeps it (`Split.keep`, `Split.move`), and the final swap puts the pivot between the two
  sides (`Split.below`, `Split.above`).
* `SortedOn.of_sides`: a range with a pivot that separates it is sorted by sorting first
  one side and then the other.
-/

namespace Mboot.Common

variable {α : Type*} {lo up lo' up' : ℕ} {a b c : ℕ → α}

/-- `b` is `a` with the elements of the range in another order. -/
def Rearranged (lo up : ℕ) (a b : ℕ → α) : Prop :=
  ∃ σ : Equiv.Perm ℕ, (∀ i, i < lo ∨ up ≤ i → σ i = i) ∧ b = a ∘ σ

theorem Rearranged.refl (lo up : ℕ) (a : ℕ → α) : Rearranged lo up a a := ⟨1, fun _ _ => rfl, rfl⟩

theorem Rearranged.trans (h : Rearranged lo up a b) (h' : Rearranged lo up b c) :
    Rearranged lo up a c := by
  obtain ⟨σ, hσ, rfl⟩ := h
  obtain ⟨τ, hτ, rfl⟩ := h'
  refine ⟨τ.trans σ, fun i hi => ?_, rfl⟩
  rw [Equiv.trans_apply, hτ i hi, hσ i hi]

theorem Rearranged.mono (h : Rearranged lo up a b) (hlo : lo' ≤ lo) (hup : up ≤ up') :
    Rearranged lo' up' a b := by
  obtain ⟨σ, hσ, rfl⟩ := h
  exact ⟨σ, fun i hi => hσ i (by omega), rfl⟩

theorem Rearranged.swap (a : ℕ → α) {i j : ℕ} (hi : lo ≤ i) (hi' : i < up) (hj : lo ≤ j)
    (hj' : j < up) : Rearranged lo up a (a ∘ Equiv.swap i j) :=
  ⟨Equiv.swap i j, fun _ hk => Equiv.swap_apply_of_ne_of_ne (by omega) (by omega), rfl⟩

/-- Outside the range nothing moves. -/
theorem Rearranged.outside (h : Rearranged lo up a b) {i : ℕ} (hi : i < lo ∨ up ≤ i) :
    b i = a i := by
  obtain ⟨σ, hσ, rfl⟩ := h
  exact congrArg a (hσ i hi)

/-- Each element of the range comes from the range. -/
theorem Rearranged.forall (h : Rearranged lo up a b) {P : α → Prop}
    (ha : ∀ i, lo ≤ i → i < up → P (a i)) : ∀ i, lo ≤ i → i < up → P (b i) := by
  obtain ⟨σ, hσ, rfl⟩ := h
  intro i hi hi'
  by_cases hin : lo ≤ σ i ∧ σ i < up
  · exact ha (σ i) hin.1 hin.2
  · -- The image would be fixed, and so the index itself.
    have hfix : σ (σ i) = σ i := hσ (σ i) (by omega)
    rw [Function.comp_apply, σ.injective hfix]
    exact ha i hi hi'

theorem Rearranged.perm {n : ℕ} (h : Rearranged 0 n a b) :
    ((List.range n).map b).Perm ((List.range n).map a) := by
  obtain ⟨σ, hσ, rfl⟩ := h
  have hmaps : ∀ i, σ i < n ↔ i < n := by
    intro i
    constructor
    · intro hi
      by_contra hn
      rw [hσ i (.inr (not_lt.mp hn))] at hi
      exact hn hi
    · intro hi
      by_contra hn
      have hfix : σ (σ i) = σ i := hσ (σ i) (.inr (not_lt.mp hn))
      rw [σ.injective hfix] at hn
      exact hn hi
  have hrange : ((List.range n).map σ).Perm (List.range n) := by
    refine (List.perm_ext_iff_of_nodup (List.nodup_range.map σ.injective) List.nodup_range).mpr ?_
    intro j
    rw [List.mem_map, List.mem_range]
    constructor
    · rintro ⟨i, hi, rfl⟩
      exact (hmaps i).mpr (List.mem_range.mp hi)
    · intro hj
      refine ⟨σ.symm j, List.mem_range.mpr ((hmaps _).mp ?_), σ.apply_symm_apply j⟩
      rwa [σ.apply_symm_apply]
  rw [← List.map_map]
  exact hrange.map a

/-! ## Partitioning -/

/-- Of the elements after the pivot `a lo` and before `up`, those up to `last` are less than
    the pivot and the others are not. -/
structure Split (lt : α → α → Prop) (a : ℕ → α) (lo last up : ℕ) : Prop where
  low : ∀ k, lo < k → k ≤ last → lt (a k) (a lo)
  high : ∀ k, last < k → k < up → ¬ lt (a k) (a lo)

variable {lt : α → α → Prop} {last : ℕ}

theorem Split.start (lt : α → α → Prop) (a : ℕ → α) (lo : ℕ) : Split lt a lo lo (lo + 1) :=
  ⟨fun _ _ _ => by omega, fun _ _ _ => by omega⟩

theorem Split.keep (h : Split lt a lo last up) (hup : ¬ lt (a up) (a lo)) :
    Split lt a lo last (up + 1) := by
  refine ⟨h.low, fun k hk hk' => ?_⟩
  obtain hlt | rfl := Nat.lt_succ_iff_lt_or_eq.mp hk'
  · exact h.high k hk hlt
  · exact hup

theorem Split.move (h : Split lt a lo last up) (hlo : lo ≤ last) (hlast : last < up)
    (hup : lt (a up) (a lo)) :
    Split lt (a ∘ Equiv.swap (last + 1) up) lo (last + 1) (up + 1) := by
  have hpivot : Equiv.swap (last + 1) up lo = lo :=
    Equiv.swap_apply_of_ne_of_ne (by omega) (by omega)
  constructor
  · intro k hk hk'
    rw [Function.comp_apply, Function.comp_apply, hpivot]
    obtain hlt | rfl := Nat.lt_succ_iff_lt_or_eq.mp (Nat.lt_succ_of_le hk')
    · rw [Equiv.swap_apply_of_ne_of_ne (by omega) (by omega)]
      exact h.low k hk (by omega)
    · rwa [Equiv.swap_apply_left]
  · intro k hk hk'
    rw [Function.comp_apply, Function.comp_apply, hpivot]
    obtain hlt | rfl := Nat.lt_succ_iff_lt_or_eq.mp hk'
    · rw [Equiv.swap_apply_of_ne_of_ne (by omega) (by omega)]
      exact h.high k (by omega) hlt
    · rw [Equiv.swap_apply_right]
      exact h.high (last + 1) (by omega) (by omega)

/-- With the pivot swapped to `last`, smaller elements stand before it. -/
theorem Split.below (h : Split lt a lo last up) {k : ℕ} (hk : lo ≤ k) (hk' : k < last) :
    lt ((a ∘ Equiv.swap lo last) k) ((a ∘ Equiv.swap lo last) last) := by
  rw [Function.comp_apply, Function.comp_apply, Equiv.swap_apply_right]
  obtain rfl | hne := eq_or_ne k lo
  · rw [Equiv.swap_apply_left]
    exact h.low last hk' le_rfl
  · rw [Equiv.swap_apply_of_ne_of_ne hne (by omega)]
    exact h.low k (by omega) (by omega)

theorem Split.above (h : Split lt a lo last up) (hlo : lo ≤ last) {k : ℕ} (hk : last < k)
    (hk' : k < up) : ¬ lt ((a ∘ Equiv.swap lo last) k) ((a ∘ Equiv.swap lo last) last) := by
  rw [Function.comp_apply, Function.comp_apply, Equiv.swap_apply_right,
    Equiv.swap_apply_of_ne_of_ne (by omega) (by omega)]
  exact h.high k hk hk'

/-! ## Sorted ranges -/

/-- The elements of the range are in order. -/
def SortedOn (le : α → α → Prop) (lo up : ℕ) (a : ℕ → α) : Prop :=
  ∀ i j, lo ≤ i → i < j → j < up → le (a i) (a j)

/-- A range with a pivot, below it only elements at most the pivot and above it only
    elements at least the pivot, is sorted when both sides are. -/
theorem SortedOn.of_partition {le : α → α → Prop} (htrans : ∀ x y z, le x y → le y z → le x z)
    {p : ℕ} (hbelow : ∀ i, lo ≤ i → i < p → le (a i) (a p))
    (habove : ∀ i, p + 1 ≤ i → i < up → le (a p) (a i)) (hleft : SortedOn le lo p a)
    (hright : SortedOn le (p + 1) up a) : SortedOn le lo up a := by
  intro i j hi hij hj
  obtain hip | rfl | hip := lt_trichotomy i p
  · obtain hjp | rfl | hjp := lt_trichotomy j p
    · exact hleft i j hi hij hjp
    · exact hbelow i hi hip
    · exact htrans _ _ _ (hbelow i hi hip) (habove j hjp hj)
  · exact habove j hij hj
  · exact hright i j hip hij hj

theorem SortedOn.congr {le : α → α → Prop} (h : SortedOn le lo up a)
    (heq : ∀ i, lo ≤ i → i < up → b i = a i) : SortedOn le lo up b := by
  intro i j hi hij hj
  rw [heq i hi (by omega), heq j (by omega) hj]
  exact h i j hi hij hj

/-- Sorting first the side below a pivot and then the side above it sorts the range. -/
theorem SortedOn.of_sides {le : α → α → Prop} (htrans : ∀ x y z, le x y → le y z → le x z)
    {p : ℕ} (hbelow : ∀ i, lo ≤ i → i < p → le (a i) (a p))
    (habove : ∀ i, p + 1 ≤ i → i < up → le (a p) (a i)) (hleft : Rearranged lo p a b)
    (hleft' : SortedOn le lo p b) (hright : Rearranged (p + 1) up b c)
    (hright' : SortedOn le (p + 1) up c) : SortedOn le lo up c := by
  have hpivot : c p = a p := (hright.outside (.inl p.lt_succ_self)).trans
    (hleft.outside (.inr le_rfl))
  have hkeep : ∀ i, lo ≤ i → i < p → c i = b i := by
    intro i _ hi
    exact hright.outside (.inl (hi.trans p.lt_succ_self))
  refine SortedOn.of_partition htrans (p := p) ?_ ?_ (hleft'.congr hkeep) hright'
  · intro i hi hip
    rw [hkeep i hi hip, hpivot]
    exact hleft.forall (P := (le · (a p))) hbelow i hi hip
  · rw [hpivot]
    refine hright.forall (P := le (a p)) fun i hi hup => ?_
    rw [hleft.outside (.inr (Nat.le_of_succ_le hi))]
    exact habove i hi hup

end Mboot.Common
