import Mboot.Common.Slice

/-!
# The first difference of two texts

Two stores that are read from position 0 up to a terminator. A scan that compares them
position by position ends at their first difference or at the terminator, and if the
terminator is the least cell, the cells at the first difference decide the lexicographic
order of the texts.
-/

namespace Mboot.Common

variable {α β : Type*}

/-- `z` occurs in `f` at `n` for the first time. -/
structure Terminated (f : ℕ → α) (z : α) (n : ℕ) : Prop where
  stop : f n = z
  before : ∀ i < n, f i ≠ z

/-- `f` and `g` differ at `k` for the first time. -/
structure FirstDiff (f g : ℕ → α) (k : ℕ) : Prop where
  agree : ∀ i < k, f i = g i
  differ : f k ≠ g k

theorem Terminated.comp {f : ℕ → α} {z : α} {n : ℕ} (hf : Terminated f z n) {v : α → β}
    (hv : Function.Injective v) : Terminated (v ∘ f) (v z) n where
  stop := congrArg v hf.stop
  before i hi h := hf.before i hi (hv h)

namespace FirstDiff

variable {f g : ℕ → α} {z : α} {k m n : ℕ}

theorem comp (h : FirstDiff f g k) {v : α → β} (hv : Function.Injective v) :
    FirstDiff (v ∘ f) (v ∘ g) k where
  agree i hi := congrArg v (h.agree i hi)
  differ heq := h.differ (hv heq)

theorem symm (h : FirstDiff f g k) : FirstDiff g f k where
  agree i hi := (h.agree i hi).symm
  differ := h.differ.symm

theorem unique {l : ℕ} (hk : FirstDiff f g k) (hl : FirstDiff f g l) : k = l := by
  rcases lt_trichotomy k l with hlt | heq | hgt
  · exact absurd (hl.agree k hlt) hk.differ
  · exact heq
  · exact absurd (hk.agree l hgt) hl.differ

/-- A difference inside one text is inside the other. -/
theorem le_of_le (h : FirstDiff f g k) (hf : Terminated f z m) (hg : Terminated g z n)
    (hk : k ≤ m) : k ≤ n := by
  by_contra hlt
  push Not at hlt
  have hstop : f n = z := (h.agree n hlt).trans hg.stop
  exact hf.before n (hlt.trans_le hk) hstop

/-- A difference is not at the terminators of both. -/
theorem lt_of_le {l : ℕ} (h : FirstDiff f g k) (hf : Terminated f z m) (hg : Terminated g z n)
    (hk : k ≤ m) (hm : m ≤ l) (hn : n ≤ l) : k < l := by
  have hkn := h.le_of_le hf hg hk
  rcases (hk.trans hm).lt_or_eq with hlt | rfl
  · exact hlt
  · obtain rfl : m = k := le_antisymm hm hk
    obtain rfl : n = m := le_antisymm hn hkn
    exact absurd (hf.stop.trans hg.stop.symm) h.differ

end FirstDiff

/-- Two texts are the same or have a first difference. -/
theorem Terminated.same_or_firstDiff {f g : ℕ → α} {z : α} {m n : ℕ} (hf : Terminated f z m)
    (hg : Terminated g z n) :
    (m = n ∧ ∀ i ≤ m, f i = g i) ∨ ∃ k ≤ m, FirstDiff f g k := by
  classical
  by_cases hsame : ∀ i ≤ m, f i = g i
  · left
    refine ⟨le_antisymm ?_ ?_, hsame⟩
    · by_contra hlt
      push Not at hlt
      exact hf.before n hlt ((hsame n hlt.le).trans hg.stop)
    · by_contra hlt
      push Not at hlt
      exact hg.before m hlt ((hsame m le_rfl).symm.trans hf.stop)
  · right
    push Not at hsame
    obtain ⟨i, hi, hdiff⟩ := hsame
    have hex : ∃ j, f j ≠ g j := ⟨i, hdiff⟩
    refine ⟨Nat.find hex, (Nat.find_min' hex hdiff).trans hi, ?_, Nat.find_spec hex⟩
    intro j hj
    exact not_not.mp (Nat.find_min hex hj)

/-! ## Lexicographic order -/

section Lex

variable [LinearOrder α] {f g : ℕ → α} {z : α} {k m n : ℕ}

theorem FirstDiff.slice_lt_slice (h : FirstDiff f g k) (hz : ∀ x, z ≤ x) (hf : Terminated f z m)
    (hg : Terminated g z n) (hk : k ≤ m) (hlt : f k < g k) : slice f 0 m < slice g 0 n := by
  have hne : k ≠ n := by
    rintro rfl
    exact absurd hlt (hg.stop ▸ (hz (f k)).not_gt)
  have hkn : k < n := (h.le_of_le hf hg hk).lt_of_ne hne
  rw [List.lt_iff_exists]
  rcases hk.lt_or_eq with hkm | rfl
  · right
    refine ⟨k, by simpa using hkm, by simpa using hkn, ?_, by simpa using hlt⟩
    intro j hj
    simpa using h.agree j hj
  · left
    refine ⟨?_, by simpa using hkn⟩
    rw [length_slice, take_slice, Nat.min_eq_left hkn.le]
    exact slice_congr fun i hi => by simpa using h.agree i hi

/-- The cells at the first difference, the terminator being the least cell, decide the
    order. -/
theorem FirstDiff.slice_lt_slice_iff (h : FirstDiff f g k) (hz : ∀ x, z ≤ x)
    (hf : Terminated f z m) (hg : Terminated g z n) (hk : k ≤ m) :
    slice f 0 m < slice g 0 n ↔ f k < g k := by
  constructor
  · intro hslice
    by_contra hnot
    have hgt : g k < f k := (le_of_not_gt hnot).lt_of_ne h.differ.symm
    have hslice' := h.symm.slice_lt_slice hz hg hf (h.le_of_le hf hg hk) hgt
    exact List.lt_asymm hslice hslice'
  · exact h.slice_lt_slice hz hf hg hk

end Lex

end Mboot.Common
