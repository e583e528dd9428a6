import Mboot.Common.Rearrange

/-!
# Sorting

Model of `qsort` of the C library (`user/src/libc.c`, lines 1284–1319), over the memory of
the program as a function from addresses to bytes. Indices and addresses are computed in
32 bits. The comparator may read the memory, keep a state and answer as it likes; both
loops take fuel, and `none` is a run that has not ended.

* `Moved`: what every part of the algorithm does to the memory, whatever the comparator
  says: elements of the array change places and no other byte changes.
* `qsortInner_spec`: a call ends, moves elements of the array only, and, as long as the
  sum of its indices fits in 32 bits, only those of its range, which it sorts.
* `qsort_sorts_iff`: `qsort` ends with a permutation for every comparator, and sorts for
  every total preorder if and only if elements have no bytes or there are at most
  `2 ^ 31 + 1` of them. Beyond, `(lo + hi) / 2` is not between `lo` and `hi`.
-/

namespace Mboot.Libc

open Mboot.Common

variable {σ : Type}

/-- A comparator with its state: from two addresses to the sign of its answer. -/
abbrev Compar (σ : Type) := σ → (ℕ → UInt8) → ℕ → ℕ → ℤ × σ

/-- `qsort_swap` (lines 1284–1291), byte by byte. -/
def qsortSwap (mem : ℕ → UInt8) (a b : ℕ) : ℕ → ℕ → UInt8
  | 0 => mem
  | i + 1 =>
    let m := qsortSwap mem a b i
    let tmp := m ((a + i) % 2 ^ 32)
    Function.update (Function.update m ((a + i) % 2 ^ 32) (m ((b + i) % 2 ^ 32)))
      ((b + i) % 2 ^ 32) tmp

/-- `base + i * size`. -/
def slot (base size i : ℕ) : ℕ := (base + i * size) % 2 ^ 32

/-- The loop of `qsort_inner` (lines 1302–1307). -/
def partitionLoop (base lo hi size : ℕ) (compar : Compar σ) :
    ℕ → ℕ → ℕ → (ℕ → UInt8) → σ → Option (ℕ × (ℕ → UInt8) × σ)
  | 0, _, _, _, _ => none
  | fuel + 1, i, last, mem, s =>
    if i ≤ hi then
      let (order, s) := compar s mem (slot base size i) (slot base size lo)
      if order < 0 then
        let last := (last + 1) % 2 ^ 32
        let mem := qsortSwap mem (slot base size last) (slot base size i) size
        partitionLoop base lo hi size compar fuel ((i + 1) % 2 ^ 32) last mem s
      else partitionLoop base lo hi size compar fuel ((i + 1) % 2 ^ 32) last mem s
    else some (last, mem, s)

/-- `qsort_inner` (lines 1293–1312). -/
def qsortInner (base size : ℕ) (compar : Compar σ) :
    ℕ → ℕ → ℕ → (ℕ → UInt8) → σ → Option ((ℕ → UInt8) × σ)
  | 0, _, _, _, _ => none
  | fuel + 1, lo, hi, mem, s =>
    if lo ≥ hi then some (mem, s)
    else do
      let mid := (lo + hi) % 2 ^ 32 / 2
      let mem := qsortSwap mem (slot base size lo) (slot base size mid) size
      let (last, mem, s) ←
        partitionLoop base lo hi size compar (fuel + 1) ((lo + 1) % 2 ^ 32) lo mem s
      let mem := qsortSwap mem (slot base size lo) (slot base size last) size
      let (mem, s) ←
        if last > 0 then qsortInner base size compar fuel lo (last - 1) mem s
        else some (mem, s)
      qsortInner base size compar fuel ((last + 1) % 2 ^ 32) hi mem s

/-- `qsort` (lines 1314–1319). -/
def qsort (fuel base nmemb size : ℕ) (compar : Compar σ) (mem : ℕ → UInt8) (s : σ) :
    Option ((ℕ → UInt8) × σ) :=
  if nmemb ≤ 1 then some (mem, s)
  else qsortInner base size compar fuel 0 (nmemb - 1) mem s

/-! ## The array as a sequence of elements -/

/-- An array in the address space of the program. -/
structure ArrayAt where
  base : ℕ
  nmemb : ℕ
  size : ℕ
  nmemb_lt : nmemb < 2 ^ 32
  fits : base + nmemb * size ≤ 2 ^ 32

/-- The bytes of an element. -/
abbrev ArrayAt.Elem (A : ArrayAt) := Fin A.size → UInt8

/-- The elements of the array, in order. -/
def ArrayAt.elems (A : ArrayAt) (mem : ℕ → UInt8) (i : ℕ) : A.Elem :=
  fun d => mem (A.base + i * A.size + d)

/-- The address is not one of the array. -/
def ArrayAt.Outside (A : ArrayAt) (x : ℕ) : Prop := x < A.base ∨ A.base + A.nmemb * A.size ≤ x

variable {A : ArrayAt} {mem mem' : ℕ → UInt8} {i j lo hi last fuel : ℕ} {s : σ}

theorem ArrayAt.end_le (A : ArrayAt) (hi : i < j) :
    A.base + i * A.size + A.size ≤ A.base + j * A.size := by
  have h := Nat.mul_le_mul_right A.size (Nat.succ_le_of_lt hi)
  rw [Nat.succ_mul] at h
  omega

theorem slot_eq (hi : i < A.nmemb) (hsize : 0 < A.size) :
    slot A.base A.size i = A.base + i * A.size := by
  have h := A.end_le hi
  have := A.fits
  exact Nat.mod_eq_of_lt (by omega)

theorem qsortSwap_self (mem : ℕ → UInt8) (a n : ℕ) : qsortSwap mem a a n = mem := by
  induction n with
  | zero => rfl
  | succ n ih =>
    rw [qsortSwap, ih]
    simp only [Function.update_eq_self]

/-- What the swap of two blocks that do not overlap leaves at an address. -/
theorem qsortSwap_apply {a b size : ℕ} (ha : a + size ≤ 2 ^ 32) (hb : b + size ≤ 2 ^ 32)
    (hab : a + size ≤ b ∨ b + size ≤ a) (x : ℕ) : ∀ n ≤ size, qsortSwap mem a b n x =
      if a ≤ x ∧ x < a + n then mem (b + (x - a))
      else if b ≤ x ∧ x < b + n then mem (a + (x - b)) else mem x := by
  intro n
  induction n generalizing x with
  | zero =>
    intro _
    rw [if_neg (by omega), if_neg (by omega)]
    rfl
  | succ n ih =>
    intro hn
    have hmod : (a + n) % 2 ^ 32 = a + n ∧ (b + n) % 2 ^ 32 = b + n :=
      ⟨Nat.mod_eq_of_lt (by omega), Nat.mod_eq_of_lt (by omega)⟩
    simp only [qsortSwap, hmod.1, hmod.2]
    obtain rfl | hxb := eq_or_ne x (b + n)
    · rw [Function.update_self, ih _ (by omega), if_neg (by omega), if_neg (by omega),
        if_neg (by omega), if_pos (by omega), Nat.add_sub_cancel_left]
    rw [Function.update_of_ne hxb]
    obtain rfl | hxa := eq_or_ne x (a + n)
    · rw [Function.update_self, ih _ (by omega), if_neg (by omega), if_neg (by omega),
        if_pos (by omega), Nat.add_sub_cancel_left]
    rw [Function.update_of_ne hxa, ih x (by omega)]
    have hiffa : (a ≤ x ∧ x < a + n) ↔ (a ≤ x ∧ x < a + (n + 1)) := by omega
    have hiffb : (b ≤ x ∧ x < b + n) ↔ (b ≤ x ∧ x < b + (n + 1)) := by omega
    simp only [hiffa, hiffb]

/-- The swap of two elements. -/
def ArrayAt.swap (A : ArrayAt) (mem : ℕ → UInt8) (i j : ℕ) : ℕ → UInt8 :=
  qsortSwap mem (slot A.base A.size i) (slot A.base A.size j) A.size

/-- The places of distinct elements do not overlap. -/
theorem ArrayAt.disjoint (A : ArrayAt) (h : i ≠ j) :
    A.base + i * A.size + A.size ≤ A.base + j * A.size ∨
      A.base + j * A.size + A.size ≤ A.base + i * A.size :=
  (lt_or_gt_of_ne h).imp A.end_le A.end_le

theorem ArrayAt.slot_add_le (A : ArrayAt) (hi : i < A.nmemb) :
    A.base + i * A.size + A.size ≤ 2 ^ 32 :=
  (A.end_le hi).trans A.fits

theorem ArrayAt.swap_apply (hi : i < A.nmemb) (hj : j < A.nmemb) (hij : i ≠ j)
    (hsize : 0 < A.size) (x : ℕ) : A.swap mem i j x =
      if A.base + i * A.size ≤ x ∧ x < A.base + i * A.size + A.size then
        mem (A.base + j * A.size + (x - (A.base + i * A.size)))
      else if A.base + j * A.size ≤ x ∧ x < A.base + j * A.size + A.size then
        mem (A.base + i * A.size + (x - (A.base + j * A.size)))
      else mem x := by
  rw [ArrayAt.swap, slot_eq hi hsize, slot_eq hj hsize]
  exact qsortSwap_apply (A.slot_add_le hi) (A.slot_add_le hj) (A.disjoint hij) x _ le_rfl

/-- Swapping the bytes of two elements swaps the elements. -/
theorem ArrayAt.elems_swap (mem : ℕ → UInt8) (hi : i < A.nmemb) (hj : j < A.nmemb) :
    A.elems (A.swap mem i j) = A.elems mem ∘ Equiv.swap i j := by
  funext k d
  have hd := d.isLt
  have hsize : 0 < A.size := by omega
  obtain rfl | hij := eq_or_ne i j
  · rw [ArrayAt.swap, qsortSwap_self, Equiv.swap_self]
    rfl
  rw [ArrayAt.elems, ArrayAt.swap_apply hi hj hij hsize, Function.comp_apply, ArrayAt.elems]
  obtain rfl | hki := eq_or_ne k i
  · rw [if_pos (by omega), Equiv.swap_apply_left, Nat.add_sub_cancel_left]
  have hdisj := A.disjoint hki
  rw [if_neg (by omega)]
  obtain rfl | hkj := eq_or_ne k j
  · rw [if_pos (by omega), Equiv.swap_apply_right, Nat.add_sub_cancel_left]
  have hdisj' := A.disjoint hkj
  rw [if_neg (by omega), Equiv.swap_apply_of_ne_of_ne hki hkj]

theorem ArrayAt.swap_of_outside (mem : ℕ → UInt8) (hi : i < A.nmemb) (hj : j < A.nmemb) {x : ℕ}
    (hx : A.Outside x) : A.swap mem i j x = mem x := by
  obtain hsize | hsize := Nat.eq_zero_or_pos A.size
  · rw [ArrayAt.swap, hsize]
    rfl
  obtain rfl | hij := eq_or_ne i j
  · rw [ArrayAt.swap, qsortSwap_self]
  have hi' := A.end_le hi
  have hj' := A.end_le hj
  rw [ArrayAt.swap_apply hi hj hij hsize]
  unfold ArrayAt.Outside at hx
  have hpos := Nat.zero_le (i * A.size)
  rw [if_neg (by omega), if_neg (by omega)]

/-- Elements of the range have changed places, and no byte outside the array has changed. -/
structure Moved (A : ArrayAt) (lo up : ℕ) (mem mem' : ℕ → UInt8) : Prop where
  elems : Rearranged lo up (A.elems mem) (A.elems mem')
  frame : ∀ x, A.Outside x → mem' x = mem x

theorem Moved.refl (A : ArrayAt) (lo up : ℕ) (mem : ℕ → UInt8) : Moved A lo up mem mem :=
  ⟨.refl lo up _, fun _ _ => rfl⟩

theorem Moved.trans {lo up : ℕ} {mem'' : ℕ → UInt8} (h : Moved A lo up mem mem')
    (h' : Moved A lo up mem' mem'') : Moved A lo up mem mem'' :=
  ⟨h.elems.trans h'.elems, fun x hx => (h'.frame x hx).trans (h.frame x hx)⟩

theorem Moved.mono {lo up lo' up' : ℕ} (h : Moved A lo up mem mem') (hlo : lo' ≤ lo)
    (hup : up ≤ up') : Moved A lo' up' mem mem' :=
  ⟨h.elems.mono hlo hup, h.frame⟩

theorem Moved.swap {lo up : ℕ} (mem : ℕ → UInt8) (hup : up ≤ A.nmemb) (hi : lo ≤ i)
    (hi' : i < up) (hj : lo ≤ j) (hj' : j < up) : Moved A lo up mem (A.swap mem i j) := by
  have hn : i < A.nmemb ∧ j < A.nmemb := by omega
  refine ⟨?_, fun x hx => ArrayAt.swap_of_outside mem hn.1 hn.2 hx⟩
  rw [ArrayAt.elems_swap mem hn.1 hn.2]
  exact .swap _ hi hi' hj hj'

/-- Two swaps with moves between them. -/
theorem Moved.between_swaps {lo up k : ℕ} {mem₁ : ℕ → UInt8} (hup : up ≤ A.nmemb) (hi : lo ≤ i)
    (hi' : i < up) (hj : lo ≤ j) (hj' : j < up) (hk : lo ≤ k) (hk' : k < up)
    (h : Moved A lo up (A.swap mem i j) mem₁) : Moved A lo up mem (A.swap mem₁ i k) :=
  ((Moved.swap mem hup hi hi' hj hj').trans h).trans (Moved.swap mem₁ hup hi hi' hk hk')

/-! ## Comparators that order the elements -/

/-- A total preorder as a comparison: the answers for two elements in both orders have
    opposite signs, and "not greater" is transitive. -/
structure TotalPreorder {α : Type*} (cmp : α → α → ℤ) : Prop where
  swap : ∀ x y, cmp x y < 0 ↔ 0 < cmp y x
  trans : ∀ x y z, cmp x y ≤ 0 → cmp y z ≤ 0 → cmp x z ≤ 0

theorem TotalPreorder.le_of_not_lt {α : Type*} {cmp : α → α → ℤ} (h : TotalPreorder cmp)
    {x y : α} (hxy : ¬ cmp x y < 0) : cmp y x ≤ 0 := by
  rw [h.swap] at hxy
  exact not_lt.mp hxy

/-- On elements of the array the comparator answers as `cmp` does, in every state and while
    the memory outside the array is the one given. -/
def Decides (A : ArrayAt) (mem : ℕ → UInt8) (compar : Compar σ) (cmp : A.Elem → A.Elem → ℤ) :
    Prop :=
  ∀ s m i j, i < A.nmemb → j < A.nmemb → (∀ x, A.Outside x → m x = mem x) →
    (compar s m (slot A.base A.size i) (slot A.base A.size j)).1 = cmp (A.elems m i) (A.elems m j)

variable {compar : Compar σ} {cmp : A.Elem → A.Elem → ℤ}

theorem Decides.of_frame (h : Decides A mem compar cmp)
    (hframe : ∀ x, A.Outside x → mem' x = mem x) : Decides A mem' compar cmp :=
  fun s m i j hi hj hm => h s m i j hi hj fun x hx => (hm x hx).trans (hframe x hx)

/-! ## The partition -/

/-- Less in the order of the comparator. -/
def Less (cmp : A.Elem → A.Elem → ℤ) (x y : A.Elem) : Prop := cmp x y < 0

/-- The loop ends with `last` in the range. It moves elements behind the pivot only and
    keeps the split, if the comparator is one that orders the elements. -/
theorem partitionLoop_spec (compar : Compar σ) (lo : ℕ) (hhi : hi < A.nmemb) :
    ∀ fuel i last mem (s : σ), lo ≤ last → last < i → i ≤ hi + 1 → hi + 1 - i < fuel →
      ∃ last' mem' s',
      partitionLoop A.base lo hi A.size compar fuel i last mem s = some (last', mem', s') ∧
      lo ≤ last' ∧ last' ≤ hi ∧ Moved A (lo + 1) (hi + 1) mem mem' ∧
      ∀ cmp, Decides A mem compar cmp → Split (Less cmp) (A.elems mem) lo last i →
        Split (Less cmp) (A.elems mem') lo last' (hi + 1) := by
  have hnmemb := A.nmemb_lt
  intro fuel
  induction fuel with
  | zero => omega
  | succ fuel ih =>
    intro i last mem s hlo hlast hi' hfuel
    obtain hle | hlt := Nat.lt_or_ge hi i
    · obtain rfl : i = hi + 1 := by omega
      refine ⟨last, mem, s, ?_, hlo, by omega, .refl _ _ _ _, fun _ _ hs => hs⟩
      rw [partitionLoop, if_neg (by omega)]
    have hmod : (i + 1) % 2 ^ 32 = i + 1 ∧ (last + 1) % 2 ^ 32 = last + 1 :=
      ⟨Nat.mod_eq_of_lt (by omega), Nat.mod_eq_of_lt (by omega)⟩
    rcases horder : compar s mem (slot A.base A.size i) (slot A.base A.size lo) with ⟨order, s'⟩
    -- What the comparator says about `i` and the pivot, when it can be believed.
    have hcmp : ∀ cmp, Decides A mem compar cmp →
        order = cmp (A.elems mem i) (A.elems mem lo) := by
      intro cmp hdec
      rw [← hdec s mem i lo (by omega) (by omega) fun _ _ => rfl, horder]
    by_cases hneg : order < 0
    · obtain ⟨last', mem', s'', hrun, hlo', hhi', hmoved, hsplit⟩ :=
        ih (i + 1) (last + 1) (A.swap mem (last + 1) i) s' (by omega) (by omega) (by omega)
          (by omega)
      have hswap : Moved A (lo + 1) (hi + 1) mem (A.swap mem (last + 1) i) :=
        .swap mem (by omega) (by omega) (by omega) (by omega) (by omega)
      refine ⟨last', mem', s'', ?_, hlo', hhi', hswap.trans hmoved, fun cmp hdec hs => ?_⟩
      · rw [partitionLoop, if_pos hlt, horder]
        simp only [hneg, if_true, hmod.1, hmod.2]
        exact hrun
      · refine hsplit cmp (hdec.of_frame hswap.frame) ?_
        rw [ArrayAt.elems_swap mem (by omega) (by omega)]
        exact hs.move hlo hlast (by rw [Less, ← hcmp cmp hdec]; exact hneg)
    · obtain ⟨last', mem', s'', hrun, hlo', hhi', hmoved, hsplit⟩ :=
        ih (i + 1) last mem s' hlo (by omega) (by omega) (by omega)
      refine ⟨last', mem', s'', ?_, hlo', hhi', hmoved, fun cmp hdec hs => ?_⟩
      · rw [partitionLoop, if_pos hlt, horder]
        simp only [hneg, if_false, hmod.1]
        exact hrun
      · exact hsplit cmp hdec (hs.keep (by rw [Less, ← hcmp cmp hdec]; exact hneg))

/-! ## The recursion -/

/-- What a call of `qsort_inner` does to its range, when its middle is computed right. -/
def SortsRange (A : ArrayAt) (compar : Compar σ) (lo up : ℕ) (mem mem' : ℕ → UInt8) : Prop :=
  Moved A lo up mem mem' ∧ ∀ cmp, TotalPreorder cmp → Decides A mem compar cmp →
    SortedOn (cmp · · ≤ 0) lo up (A.elems mem')

theorem SortsRange.of_short {up : ℕ} (h : up ≤ lo + 1) : SortsRange A compar lo up mem mem :=
  ⟨.refl _ _ _ _, fun _ _ _ _ _ _ _ _ => by omega⟩

/-- Partition around the element that `mid` brings to the front, then sort both sides. -/
theorem SortsRange.of_partition {mid up : ℕ} {mem₁ mem₂ mem₃ : ℕ → UInt8} (hup : up ≤ A.nmemb)
    (hmid : lo ≤ mid) (hmid' : mid < up) (hlast : lo ≤ last) (hlast' : last < up)
    (hmoved : Moved A (lo + 1) up (A.swap mem lo mid) mem₁)
    (hsplit : ∀ cmp, Decides A (A.swap mem lo mid) compar cmp →
      Split (Less cmp) (A.elems mem₁) lo last up)
    (hleft : SortsRange A compar lo last (A.swap mem₁ lo last) mem₂)
    (hright : SortsRange A compar (last + 1) up mem₂ mem₃) :
    SortsRange A compar lo up mem mem₃ := by
  have hfirst : Moved A lo up mem (A.swap mem lo mid) :=
    .swap mem hup le_rfl (by omega) hmid hmid'
  have hmem₁ : Moved A lo up mem (A.swap mem₁ lo last) :=
    .between_swaps hup le_rfl (by omega) hmid hmid' hlast hlast'
      (hmoved.mono (Nat.le_succ lo) le_rfl)
  have hmem₂ : Moved A lo up mem mem₂ := hmem₁.trans (hleft.1.mono le_rfl (by omega))
  refine ⟨hmem₂.trans (hright.1.mono (by omega) le_rfl), fun cmp hcmp hdec => ?_⟩
  have hs := hsplit cmp (hdec.of_frame hfirst.frame)
  refine SortedOn.of_sides hcmp.trans ?_ ?_ hleft.1.elems
    (hleft.2 cmp hcmp (hdec.of_frame hmem₁.frame)) hright.1.elems
    (hright.2 cmp hcmp (hdec.of_frame hmem₂.frame))
  · intro i hi hi'
    rw [ArrayAt.elems_swap mem₁ (by omega) (by omega)]
    exact (hs.below hi hi').le
  · intro i hi hi'
    rw [ArrayAt.elems_swap mem₁ (by omega) (by omega)]
    exact hcmp.le_of_not_lt (hs.above hlast hi hi')

/-- The parts of a call on a range of at least two elements. -/
theorem qsortInner_of_parts {mem₁ mem₂ : ℕ → UInt8} {s₁ s₂ : σ} {r : (ℕ → UInt8) × σ}
    (hlt : lo < hi)
    (hpart : partitionLoop A.base lo hi A.size compar (fuel + 1) ((lo + 1) % 2 ^ 32) lo
      (A.swap mem lo ((lo + hi) % 2 ^ 32 / 2)) s = some (last, mem₁, s₁))
    (hleft : (if last > 0 then
        qsortInner A.base A.size compar fuel lo (last - 1) (A.swap mem₁ lo last) s₁
      else some (A.swap mem₁ lo last, s₁)) = some (mem₂, s₂))
    (hright : qsortInner A.base A.size compar fuel ((last + 1) % 2 ^ 32) hi mem₂ s₂ = some r) :
    qsortInner A.base A.size compar (fuel + 1) lo hi mem s = some r := by
  unfold ArrayAt.swap at hpart hleft
  rw [qsortInner, if_neg (by omega)]
  simp only [hpart, Option.bind_eq_bind, Option.bind_some]
  by_cases hpos : last > 0
  · rw [if_pos hpos] at hleft
    simp only [hpos, if_true, hleft, Option.bind_some, hright]
  · rw [if_neg hpos] at hleft
    obtain ⟨rfl, rfl⟩ := Prod.mk.inj (Option.some.inj hleft)
    simp only [hpos, if_false, hright]

/-- A call ends, whatever the comparator says, and moves elements of the array only; if the
    sum of its indices fits in 32 bits, it sorts its range. -/
theorem qsortInner_spec (A : ArrayAt) (compar : Compar σ) : ∀ fuel lo hi mem (s : σ),
    lo ≤ hi + 1 → hi < A.nmemb → hi - lo < fuel → ∃ mem' s',
      qsortInner A.base A.size compar fuel lo hi mem s = some (mem', s') ∧
      Moved A 0 A.nmemb mem mem' ∧
      (hi ≤ 2 ^ 31 → SortsRange A compar lo (hi + 1) mem mem') := by
  have hnmemb := A.nmemb_lt
  intro fuel
  induction fuel with
  | zero => omega
  | succ fuel ih =>
    intro lo hi mem s hlo hhi hfuel
    obtain hge | hlt := Nat.lt_or_ge lo hi |>.symm
    · refine ⟨mem, s, ?_, .refl _ _ _ _, fun _ => .of_short (by omega)⟩
      rw [qsortInner, if_pos hge]
    have hmid : (lo + hi) % 2 ^ 32 / 2 ≤ hi := by omega
    have hmod : (lo + 1) % 2 ^ 32 = lo + 1 := Nat.mod_eq_of_lt (by omega)
    obtain ⟨last, mem₁, s₁, hpart, hlast, hlast', hmoved, hsplit⟩ :=
      partitionLoop_spec compar lo hhi (fuel + 1) (lo + 1) lo
        (A.swap mem lo ((lo + hi) % 2 ^ 32 / 2)) s le_rfl (by omega) (by omega) (by omega)
    have hmod' : (last + 1) % 2 ^ 32 = last + 1 := Nat.mod_eq_of_lt (by omega)
    -- The call on the left side, which is skipped when the pivot is the first element.
    obtain ⟨mem₂, s₂, hleft, hmoved₂, hsorts₂⟩ : ∃ mem₂ s₂,
        (if last > 0 then
          qsortInner A.base A.size compar fuel lo (last - 1) (A.swap mem₁ lo last) s₁
        else some (A.swap mem₁ lo last, s₁)) = some (mem₂, s₂) ∧
        Moved A 0 A.nmemb (A.swap mem₁ lo last) mem₂ ∧
        (hi ≤ 2 ^ 31 → SortsRange A compar lo last (A.swap mem₁ lo last) mem₂) := by
      obtain hzero | hpos := Nat.eq_zero_or_pos last
      · refine ⟨_, _, if_neg (by omega), .refl _ _ _ _, fun _ => .of_short (by omega)⟩
      · obtain ⟨mem₂, s₂, hrun, hmoved₂, hsorts₂⟩ :=
          ih lo (last - 1) (A.swap mem₁ lo last) s₁ (by omega) (by omega) (by omega)
        rw [Nat.sub_add_cancel hpos] at hsorts₂
        exact ⟨mem₂, s₂, by rw [if_pos hpos, hrun], hmoved₂, fun h => hsorts₂ (by omega)⟩
    obtain ⟨mem₃, s₃, hright, hmoved₃, hsorts₃⟩ :=
      ih (last + 1) hi mem₂ s₂ (by omega) hhi (by omega)
    refine ⟨mem₃, s₃, ?_, ?_, fun h => ?_⟩
    · rw [← hmod] at hpart
      rw [← hmod'] at hright
      exact qsortInner_of_parts hlt hpart hleft hright
    · have hmem₁ : Moved A 0 A.nmemb mem (A.swap mem₁ lo last) :=
        .between_swaps le_rfl (Nat.zero_le _) (by omega) (Nat.zero_le _) (by omega)
          (Nat.zero_le _) (by omega) (hmoved.mono (Nat.zero_le _) (by omega))
      exact (hmem₁.trans hmoved₂).trans hmoved₃
    · have hsum : (lo + hi) % 2 ^ 32 = lo + hi := Nat.mod_eq_of_lt (by omega)
      exact SortsRange.of_partition (by omega) (by omega) (by omega) hlast (by omega) hmoved
        (fun cmp hdec => hsplit cmp hdec (.start _ _ lo)) (hsorts₂ h) (hsorts₃ h)

/-- For every comparator, `qsort` ends with a permutation of the elements and no byte
    outside the array changed. -/
def QsortPermutes (A : ArrayAt) : Prop :=
  ∀ (σ : Type) (compar : Compar σ) mem s fuel, A.nmemb ≤ fuel → ∃ mem' s',
    qsort fuel A.base A.nmemb A.size compar mem s = some (mem', s') ∧
    ((List.range A.nmemb).map (A.elems mem')).Perm ((List.range A.nmemb).map (A.elems mem)) ∧
    ∀ x, A.Outside x → mem' x = mem x

/-- For every comparator that is a total preorder, `qsort` ends with the elements in
    non-decreasing order. -/
def QsortSorts (A : ArrayAt) : Prop :=
  ∀ (σ : Type) (compar : Compar σ) mem s fuel cmp, A.nmemb ≤ fuel → TotalPreorder cmp →
    Decides A mem compar cmp → ∃ mem' s',
      qsort fuel A.base A.nmemb A.size compar mem s = some (mem', s') ∧
      SortedOn (cmp · · ≤ 0) 0 A.nmemb (A.elems mem')

theorem qsort_spec (compar : Compar σ) (mem : ℕ → UInt8) (s : σ) (hfuel : A.nmemb ≤ fuel) :
    ∃ mem' s', qsort fuel A.base A.nmemb A.size compar mem s = some (mem', s') ∧
      Moved A 0 A.nmemb mem mem' ∧
      (A.nmemb ≤ 2 ^ 31 + 1 → SortsRange A compar 0 A.nmemb mem mem') := by
  by_cases hone : A.nmemb ≤ 1
  · exact ⟨mem, s, if_pos hone, .refl _ _ _ _, fun _ => .of_short (by omega)⟩
  obtain ⟨mem', s', hrun, hmoved, hsorts⟩ :=
    qsortInner_spec A compar fuel 0 (A.nmemb - 1) mem s (by omega) (by omega) (by omega)
  rw [Nat.sub_add_cancel (by omega)] at hsorts
  exact ⟨mem', s', (if_neg hone).trans hrun, hmoved, fun h => hsorts (by omega)⟩

/-- Elements without bytes are all equal. -/
theorem sortedOn_of_size_zero (h : A.size = 0) (hcmp : TotalPreorder cmp) (a : ℕ → A.Elem)
    (lo up : ℕ) : SortedOn (cmp · · ≤ 0) lo up a := by
  intro i j _ _ _
  have heq : a i = a j := by
    funext d
    exact absurd d.isLt (by omega)
  have hself := hcmp.swap (a j) (a j)
  show cmp (a i) (a j) ≤ 0
  rw [heq]
  omega

/-! ## A middle that is not between its ends -/

/-- A comparator for unsigned bytes. -/
def byteOrder : Compar Unit := fun _ mem a b => ((mem a).toNat - (mem b).toNat, ())

/-- The order of that comparator on elements: by their first byte. -/
def firstByte (A : ArrayAt) (x y : A.Elem) : ℤ :=
  if h : 0 < A.size then (x ⟨0, h⟩).toNat - (y ⟨0, h⟩).toNat else 0

theorem firstByte_totalPreorder (A : ArrayAt) : TotalPreorder (firstByte A) := by
  unfold firstByte
  constructor
  · intro x y
    split <;> omega
  · intro x y z
    split <;> omega

theorem byteOrder_decides (hsize : 0 < A.size) (mem : ℕ → UInt8) :
    Decides A mem byteOrder (firstByte A) := by
  intro s m i j hi hj _
  simp only [byteOrder, firstByte, dif_pos hsize, slot_eq hi hsize, slot_eq hj hsize,
    ArrayAt.elems, Nat.add_zero]

/-- With the least byte as pivot the loop moves nothing. -/
theorem partitionLoop_zero {base size : ℕ} (hpivot : mem (slot base size lo) = 0)
    (hhi : hi + 1 < 2 ^ 32) : ∀ fuel i, i ≤ hi + 1 → hi + 1 - i < fuel →
      partitionLoop base lo hi size byteOrder fuel i last mem () = some (last, mem, ()) := by
  intro fuel
  induction fuel with
  | zero => omega
  | succ fuel ih =>
    intro i hi' hfuel
    rw [partitionLoop]
    by_cases hle : i ≤ hi
    · rw [if_pos hle, byteOrder, hpivot]
      simp only [UInt8.toNat_zero, Nat.cast_zero, sub_zero, Int.not_ofNat_neg, if_false]
      rw [Nat.mod_eq_of_lt (by omega)]
      exact ih (i + 1) (by omega) (by omega)
    · rw [if_neg hle]

theorem qsortInner_zero {r : (ℕ → UInt8) × Unit} (hlt : lo < hi) (hhi : hi < A.nmemb)
    (hfuel : 0 < fuel) (hlen : hi - lo < fuel + 1)
    (hpivot : A.swap mem lo ((lo + hi) % 2 ^ 32 / 2) (slot A.base A.size lo) = 0)
    (hright : qsortInner A.base A.size byteOrder fuel (lo + 1) hi
      (A.swap mem lo ((lo + hi) % 2 ^ 32 / 2)) () = some r) :
    qsortInner A.base A.size byteOrder (fuel + 1) lo hi mem () = some r := by
  have hnmemb := A.nmemb_lt
  have hmod : (lo + 1) % 2 ^ 32 = lo + 1 := Nat.mod_eq_of_lt (by omega)
  have hself : ∀ m, A.swap m lo lo = m := fun m => qsortSwap_self m _ _
  refine qsortInner_of_parts hlt (partitionLoop_zero hpivot (by omega) _ _ (by omega) (by omega))
    ?_ (by rw [hmod]; exact hright)
  rw [hself]
  by_cases hpos : lo > 0
  · obtain ⟨fuel, rfl⟩ : ∃ f, fuel = f + 1 := ⟨fuel - 1, by omega⟩
    rw [if_pos hpos, qsortInner, if_pos (by omega)]
  · rw [if_neg hpos]

/-- Zeros, and a one in each of the last two places. -/
def tailOnes (A : ArrayAt) : ℕ → UInt8 := fun x => if A.base + A.nmemb ≤ x + 2 then 1 else 0

theorem elems_tailOnes (hsize : A.size = 1) (i : ℕ) (d : Fin A.size) :
    A.elems (tailOnes A) i d = if A.nmemb ≤ i + 2 then 1 else 0 := by
  have hd : (d : ℕ) = 0 := by omega
  have hiff : (A.base + A.nmemb ≤ A.base + i + 2) ↔ (A.nmemb ≤ i + 2) := by omega
  simp only [ArrayAt.elems, tailOnes, hsize, hd, Nat.mul_one, Nat.add_zero, hiff]

/-- The byte of an element is at its slot. -/
theorem apply_slot (mem : ℕ → UInt8) (hsize : 0 < A.size) (hi : i < A.nmemb) :
    mem (slot A.base A.size i) = A.elems mem i ⟨0, hsize⟩ := by
  rw [slot_eq hi hsize]
  rfl

/-- Swapping two equal bytes changes nothing. -/
theorem ArrayAt.swap_of_eq (hsize : A.size = 1) (hi : i < A.nmemb) (hj : j < A.nmemb)
    (heq : A.elems mem i = A.elems mem j) : A.swap mem i j = mem := by
  have hpos : 0 < A.size := by omega
  have hbyte : mem (slot A.base A.size i) = mem (slot A.base A.size j) := by
    rw [apply_slot mem hpos hi, apply_slot mem hpos hj, heq]
  have hlt : ∀ k, slot A.base A.size k % 2 ^ 32 = slot A.base A.size k :=
    fun k => Nat.mod_mod _ _
  unfold ArrayAt.swap
  rw [hsize]
  simp only [qsortSwap, Nat.add_zero]
  rw [← hsize, hlt, hlt, ← hbyte, Function.update_eq_self, hbyte, Function.update_eq_self]

/-- The middle of the last two indices of the array, as it is computed. -/
def wrappedMid (A : ArrayAt) : ℕ := (A.nmemb - 2 + (A.nmemb - 1)) % 2 ^ 32 / 2

theorem wrappedMid_lt (hn : 2 ^ 31 + 2 ≤ A.nmemb) : wrappedMid A < A.nmemb - 2 := by
  have hnmemb := A.nmemb_lt
  unfold wrappedMid
  omega

/-- From any place on, the calls leave the array as it is until the range is its last two
    elements; there the pivot is exchanged with an element far below the range. -/
theorem qsortInner_tailOnes (hsize : A.size = 1) (hn : 2 ^ 31 + 2 ≤ A.nmemb) :
    ∀ k fuel, k + 2 ≤ A.nmemb → k + 1 < fuel →
      qsortInner A.base A.size byteOrder fuel (A.nmemb - 2 - k) (A.nmemb - 1) (tailOnes A) () =
        some (A.swap (tailOnes A) (A.nmemb - 2) (wrappedMid A), ()) := by
  have hpos : 0 < A.size := by omega
  have hnmemb := A.nmemb_lt
  intro k
  induction k with
  | zero =>
    intro fuel hk hfuel
    obtain ⟨fuel, rfl⟩ : ∃ f, fuel = f + 2 := ⟨fuel - 2, by omega⟩
    have hmid := wrappedMid_lt hn
    refine qsortInner_zero (by omega) (by omega) (by omega) (by omega) ?_ ?_
    · show A.swap (tailOnes A) (A.nmemb - 2) (wrappedMid A) _ = 0
      refine (apply_slot _ hpos (by omega)).trans ?_
      rw [ArrayAt.elems_swap _ (by omega) (by omega), Function.comp_apply, Nat.sub_zero,
        Equiv.swap_apply_left, elems_tailOnes hsize, if_neg (by omega)]
    · rw [qsortInner, if_pos (by omega)]
      rfl
  | succ k ih =>
    intro fuel hk hfuel
    obtain ⟨fuel, rfl⟩ : ∃ f, fuel = f + 1 := ⟨fuel - 1, by omega⟩
    have hkeep : A.swap (tailOnes A) (A.nmemb - 2 - (k + 1))
        ((A.nmemb - 2 - (k + 1) + (A.nmemb - 1)) % 2 ^ 32 / 2) = tailOnes A := by
      refine ArrayAt.swap_of_eq hsize (by omega) (by omega) ?_
      funext d
      rw [elems_tailOnes hsize, elems_tailOnes hsize, if_neg (by omega), if_neg (by omega)]
    refine qsortInner_zero (by omega) (by omega) (by omega) (by omega) ?_ ?_
    · rw [hkeep]
      refine (apply_slot _ hpos (by omega)).trans ?_
      rw [elems_tailOnes hsize, if_neg (by omega)]
    · rw [hkeep, show A.nmemb - 2 - (k + 1) + 1 = A.nmemb - 2 - k by omega]
      exact ih fuel (by omega) (by omega)

/-- The array is sorted already, and `qsort` exchanges one of its ones with a zero far before
    it. -/
theorem qsort_tailOnes (hsize : A.size = 1) (hn : 2 ^ 31 + 2 ≤ A.nmemb) :
    qsort A.nmemb A.base A.nmemb A.size byteOrder (tailOnes A) () =
      some (A.swap (tailOnes A) (A.nmemb - 2) (wrappedMid A), ()) := by
  have hinner := qsortInner_tailOnes hsize hn (A.nmemb - 2) A.nmemb (by omega) (by omega)
  rw [Nat.sub_self] at hinner
  rw [qsort, if_neg (by omega), hinner]

/-- What then stands in the two places. -/
theorem elems_swap_tailOnes (hsize : A.size = 1) (hn : 2 ^ 31 + 2 ≤ A.nmemb) (d : Fin A.size) :
    A.elems (A.swap (tailOnes A) (A.nmemb - 2) (wrappedMid A)) (wrappedMid A) d = 1 ∧
      A.elems (A.swap (tailOnes A) (A.nmemb - 2) (wrappedMid A)) (A.nmemb - 2) d = 0 := by
  have hmid := wrappedMid_lt hn
  rw [ArrayAt.elems_swap _ (by omega) (by omega), Function.comp_apply, Function.comp_apply,
    Equiv.swap_apply_left, Equiv.swap_apply_right, elems_tailOnes hsize, elems_tailOnes hsize,
    if_pos (by omega), if_neg (by omega)]
  exact ⟨rfl, rfl⟩

theorem not_qsortSorts (hsize : A.size = 1) (hn : 2 ^ 31 + 2 ≤ A.nmemb) : ¬ QsortSorts A := by
  intro h
  have hpos : 0 < A.size := by omega
  have hmid := wrappedMid_lt hn
  obtain ⟨mem', s', hrun, hsorted⟩ := h Unit byteOrder (tailOnes A) () A.nmemb (firstByte A) le_rfl
    (firstByte_totalPreorder A) (byteOrder_decides hpos _)
  rw [qsort_tailOnes hsize hn] at hrun
  obtain ⟨rfl, -⟩ := Prod.mk.inj (Option.some.inj hrun)
  have hle := hsorted (wrappedMid A) (A.nmemb - 2) (Nat.zero_le _) hmid (by omega)
  obtain ⟨hone, hzero⟩ := elems_swap_tailOnes hsize hn ⟨0, hpos⟩
  simp only [firstByte, dif_pos hpos, hone, hzero] at hle
  exact absurd hle (by decide)

/-- `qsort` ends with a permutation, whatever the comparator says, and with a sorted one for
    every total preorder exactly if there is nothing to move or the sum of two indices
    never exceeds 32 bits. -/
theorem qsort_sorts_iff (A : ArrayAt) :
    QsortPermutes A ∧ (QsortSorts A ↔ A.size = 0 ∨ A.nmemb ≤ 2 ^ 31 + 1) := by
  refine ⟨fun σ compar mem s fuel hfuel => ?_, fun h => ?_, ?_⟩
  · obtain ⟨mem', s', hrun, hmoved, -⟩ := qsort_spec compar mem s hfuel
    exact ⟨mem', s', hrun, hmoved.elems.perm, hmoved.frame⟩
  · by_contra hnot
    have hfits := A.fits
    have hsize : A.size = 1 := by
      by_contra hne
      have hle := Nat.mul_le_mul (show 2 ^ 31 + 2 ≤ A.nmemb by omega) (show 2 ≤ A.size by omega)
      omega
    exact not_qsortSorts hsize (by omega) h
  · intro h σ compar mem s fuel cmp hfuel hcmp hdec
    obtain ⟨mem', s', hrun, -, hsorts⟩ := qsort_spec compar mem s hfuel
    refine ⟨mem', s', hrun, ?_⟩
    obtain hzero | hle := h
    · exact sortedOn_of_size_zero hzero hcmp _ _ _
    · exact (hsorts hle).2 cmp hcmp hdec

/-- On an array of `2 ^ 31 + 2` bytes, zeros and two ones at its end, the last call takes
    the element 0 for the middle of its range. -/
theorem qsort_misplaces :
    (∃ mem', qsort (2 ^ 31 + 2) 0 (2 ^ 31 + 2) 1 byteOrder
        (tailOnes ⟨0, 2 ^ 31 + 2, 1, by decide, by decide⟩) () = some (mem', ()) ∧
      mem' 0 = 1 ∧ mem' (2 ^ 31) = 0) ∧
    ¬ QsortSorts ⟨0, 2 ^ 31 + 2, 1, by decide, by decide⟩ := by
  refine ⟨⟨_, qsort_tailOnes (A := ⟨0, 2 ^ 31 + 2, 1, by decide, by decide⟩) rfl le_rfl, ?_⟩,
    not_qsortSorts rfl le_rfl⟩
  exact elems_swap_tailOnes (A := ⟨0, 2 ^ 31 + 2, 1, by decide, by decide⟩) rfl le_rfl 0

end Mboot.Libc
