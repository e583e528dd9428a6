import Mathlib

/-!
# Slices of an indexed store and concatenated blocks

A store is a function from positions to cells. `slice f a n` lists the `n`
cells from position `a` on; a list of blocks of one length is read at a
multiple of that length.
-/

namespace Mboot.Common

variable {α β : Type*}

/-- The `n` cells of `f` from `a` on. -/
def slice (f : ℕ → α) (a n : ℕ) : List α := (List.range n).map fun i => f (a + i)

@[simp] theorem length_slice (f : ℕ → α) (a n : ℕ) : (slice f a n).length = n := by simp [slice]

@[simp] theorem getElem_slice (f : ℕ → α) (a n i : ℕ) (h : i < (slice f a n).length) :
    (slice f a n)[i] = f (a + i) := by
  simp [slice]

theorem slice_congr {f g : ℕ → α} {a n : ℕ} (h : ∀ i < n, f (a + i) = g (a + i)) :
    slice f a n = slice g a n :=
  List.map_congr_left fun i hi => h i (List.mem_range.mp hi)

theorem slice_inj {f g : ℕ → α} {a n : ℕ} :
    slice f a n = slice g a n ↔ ∀ i < n, f (a + i) = g (a + i) := by
  constructor
  · intro h i hi
    have hget := congrArg (fun l => l[i]?) h
    simpa [slice, hi] using hget
  · exact slice_congr

theorem slice_add (f : ℕ → α) (a m n : ℕ) :
    slice f a (m + n) = slice f a m ++ slice f (a + m) n := by
  simp [slice, List.range_add, Nat.add_assoc]

theorem drop_slice (f : ℕ → α) (a n k : ℕ) : (slice f a n).drop k = slice f (a + k) (n - k) := by
  apply List.ext_getElem
  · simp
  · intro i h1 h2
    rw [List.getElem_drop, getElem_slice, getElem_slice, Nat.add_assoc]

theorem take_slice (f : ℕ → α) (a n k : ℕ) : (slice f a n).take k = slice f a (min k n) := by
  apply List.ext_getElem
  · simp
  · intro i h1 h2
    rw [List.getElem_take, getElem_slice, getElem_slice]

/-- The part of a slice that starts `k` cells in and has `m` cells. -/
theorem take_drop_slice (f : ℕ → α) {a n k m : ℕ} (h : k + m ≤ n) :
    ((slice f a n).drop k).take m = slice f (a + k) m := by
  rw [drop_slice, take_slice, Nat.min_eq_left (by omega)]

/-- A slice with `m` copies of one cell behind it. -/
theorem slice_append_replicate (f : ℕ → α) (a n m : ℕ) (x : α) :
    slice f a n ++ List.replicate m x = slice (fun i => if i < a + n then f i else x) a (n + m) := by
  rw [slice_add]
  congr 1
  · apply slice_congr
    intro i hi
    rw [if_pos (by omega)]
  · apply List.ext_getElem
    · simp
    · intro i h1 h2
      rw [List.getElem_replicate, getElem_slice, if_neg (by omega)]

theorem length_flatMap_blocks {l : List β} {f : β → List α} {n : ℕ}
    (h : ∀ b ∈ l, (f b).length = n) : (l.flatMap f).length = l.length * n := by
  induction l with
  | nil => simp
  | cons b l ih =>
    rw [List.flatMap_cons, List.length_append, h b (by simp),
      ih fun c hc => h c (List.mem_cons_of_mem _ hc), List.length_cons]
    ring

/-- Dropping `k` whole blocks and `r` cells of the next one. -/
theorem drop_flatMap_blocks {l : List β} {f : β → List α} {n : ℕ}
    (h : ∀ b ∈ l, (f b).length = n) {k r : ℕ} (hr : r ≤ n) (hk : k < l.length) :
    (l.flatMap f).drop (k * n + r) = (f l[k]).drop r ++ (l.drop (k + 1)).flatMap f := by
  induction l generalizing k with
  | nil => simp at hk
  | cons b l ih =>
    have hb := h b (by simp)
    cases k with
    | zero =>
      rw [List.flatMap_cons, List.drop_append_of_le_length (by omega)]
      simp
    | succ k =>
      have hrest := ih (fun c hc => h c (List.mem_cons_of_mem _ hc)) (k := k) (by simpa using hk)
      rw [List.flatMap_cons, show (k + 1) * n + r = (f b).length + (k * n + r) by rw [hb]; ring,
        List.drop_append, List.drop_eq_nil_of_le (by omega), Nat.add_sub_cancel_left, hrest]
      simp

end Mboot.Common
