import Mboot.Heap.Invariant

/-!
# The check for the end of the region

`kmalloc` rounds the request and the header address up to multiples of 8 and adds
them before it compares the result with `free_ram_end`. Each of these
computations is modulo `2 ^ 32`.

* `out_of_memory_exact_iff`: the comparison decides as it would on integers
  exactly when the sum does not wrap, or wraps to an address that is still behind
  the region.
-/

namespace Mboot.Heap

open Common

variable {h : HeapState} {free : List Block} {n : ℕ}

/-- The header of a new block, on integers. -/
def newHeader (h : HeapState) : ℕ := (h.bumpNext + 7) / 8 * 8

/-- The end of a new block for `n` bytes, on integers. -/
def newEnd (h : HeapState) (n : ℕ) : ℕ := newHeader h + 12 + (n + 7) / 8 * 8

/-- `kmalloc` halts exactly when the new block does not fit in the region, and else
    returns it and moves `bump_next` forward. -/
structure ExactCheck (h : HeapState) (n : ℕ) : Prop where
  halts : kmalloc h n = none ↔ h.freeRamEnd < newEnd h n
  returns : newEnd h n ≤ h.freeRamEnd → ∃ h', kmalloc h n = some (newHeader h + 12, h') ∧
    h'.bumpNext = newEnd h n ∧ h.bumpNext < h'.bumpNext

/-- `align_up_uintptr` on 32 bits. -/
theorem alignUp_eight_mod {x : ℕ} (hx : x < 2 ^ 32) :
    alignUpUintptr x 8 = (x + 7) / 8 * 8 % 2 ^ 32 := by
  by_cases hwrap : x + 7 < 2 ^ 32
  · rw [alignUp_eight_eq hwrap]
    omega
  · have hsmall : (x + 7) % 2 ^ 32 < 2 ^ 3 := by omega
    have hround := and_high_mask (n := (x + 7) % 2 ^ 32) (w := 32) (k := 3) (by omega) (by norm_num)
    rw [Nat.div_eq_of_lt hsmall, Nat.zero_mul] at hround
    have hzero : alignUpUintptr x 8 = 0 := hround
    rw [hzero]
    omega

/-- The end of `kmalloc` compares the wrapped sum. -/
theorem bumpAlloc_none_iff (hb : h.bumpNext < 2 ^ 32) :
    bumpAlloc h ((n + 7) / 8 * 8 % 2 ^ 32) = none ↔ h.freeRamEnd < newEnd h n % 2 ^ 32 := by
  have hsum : ((newHeader h % 2 ^ 32 + 12) % 2 ^ 32 + (n + 7) / 8 * 8 % 2 ^ 32) % 2 ^ 32 =
      newEnd h n % 2 ^ 32 := by
    rw [newEnd]
    omega
  have hhdr : alignUpUintptr h.bumpNext 8 = newHeader h % 2 ^ 32 := alignUp_eight_mod hb
  simp only [bumpAlloc, hhdr, hsum, gt_iff_lt]
  simp

theorem bumpAlloc_returns (hb : h.bumpNext < 2 ^ 32) (hend : h.freeRamEnd < 2 ^ 32)
    (hfit : newEnd h n ≤ h.freeRamEnd) : ∃ h',
      bumpAlloc h ((n + 7) / 8 * 8 % 2 ^ 32) = some (newHeader h + 12, h') ∧
        h'.bumpNext = newEnd h n := by
  have hhdr : alignUpUintptr h.bumpNext 8 = newHeader h % 2 ^ 32 := alignUp_eight_mod hb
  have hpay : (newHeader h % 2 ^ 32 + 12) % 2 ^ 32 = newHeader h + 12 := by
    rw [newEnd] at hfit
    omega
  have hsum : (newHeader h + 12 + (n + 7) / 8 * 8 % 2 ^ 32) % 2 ^ 32 = newEnd h n := by
    rw [newEnd] at *
    omega
  simp only [bumpAlloc, hhdr, hpay, hsum, gt_iff_lt, not_lt.mpr hfit, if_false]
  exact ⟨_, rfl, rfl⟩

/-- A heap in its region, with the free list `free`: blocks in ascending order that do
    not overlap. -/
structure Managed (h : HeapState) (free : List Block) : Prop where
  list : FreeList h.mem h.freeListHead free
  arranged : Arranged h.freeRam h.bumpNext free []
  low : h.freeRam ≤ h.bumpNext
  top : h.bumpNext ≤ h.freeRamEnd
  bound : h.freeRamEnd < 2 ^ 32

/-- No free block is found: the end of the region decides. -/
theorem Managed.kmalloc_extend (hm : Managed h free) (hn : 0 < n) (hn' : n < 2 ^ 32)
    (hfit : ∀ b ∈ free, b.size < alignUpUintptr n 8) :
    kmalloc h n = bumpAlloc h ((n + 7) / 8 * 8 % 2 ^ 32) := by
  have hbound := hm.bound
  have htop := hm.top
  have hfind := find_none hm.list hm.arranged (by omega) hfit
  simp only [kmalloc, Nat.pos_iff_ne_zero.mp hn, if_false, startBump_eq hm.low, hfind, ne_eq,
    not_true_eq_false]
  rw [alignUp_eight_mod hn']

/-- A request that is rounded up to `2 ^ 32` wants no bytes at all, and every free
    block serves it. -/
theorem Managed.kmalloc_wrapped {b : Block} {post : List Block} (hm : Managed h (b :: post))
    (hn : 0 < n) (hn' : n < 2 ^ 32) (hwrap : 2 ^ 32 ≤ n + 7) : (kmalloc h n).isSome := by
  have hbound := hm.bound
  have htop := hm.top
  have hzero : alignUpUintptr n 8 = 0 := by
    rw [alignUp_eight_mod hn']
    omega
  have hnull := hm.arranged.nonnull b List.mem_cons_self
  have hempty : ∀ a ∈ ([] : List Block), a.size < 0 := by simp
  obtain ⟨h1, hfind, hlist, hsize, -⟩ := find_some hm.list hm.arranged (by omega) hempty
    (Nat.zero_le _)
  have hwant : 0 + 28 < 2 ^ 32 := by norm_num
  obtain ⟨h2, hsplit, -⟩ := split_spec hlist hsize hm.arranged (by omega) hwant
  simp only [kmalloc, Nat.pos_iff_ne_zero.mp hn, if_false, startBump_eq hm.low, hzero, hfind, ne_eq,
    hnull, not_false_eq_true, if_true, hsplit, Option.map_some, Option.isSome_some]

/-- The check is exact when the region decides and the sum does not wrap, or wraps to
    an address behind the region. -/
theorem exactCheck_iff_of_extend (hb : h.bumpNext ≤ h.freeRamEnd) (hend : h.freeRamEnd < 2 ^ 32)
    (hcall : kmalloc h n = bumpAlloc h ((n + 7) / 8 * 8 % 2 ^ 32)) :
    ExactCheck h n ↔ newEnd h n < 2 ^ 32 ∨ h.freeRamEnd < newEnd h n % 2 ^ 32 := by
  have hnone := bumpAlloc_none_iff (h := h) (n := n) (by omega)
  rw [← hcall] at hnone
  constructor
  · intro hexact
    by_contra hwrap
    have := hnone.mp (hexact.halts.mpr (by omega))
    omega
  · intro hcond
    refine ⟨?_, fun hfit => ?_⟩
    · rw [hnone]
      omega
    · obtain ⟨h', hbump, hnext⟩ := bumpAlloc_returns (by omega) hend hfit
      refine ⟨h', hcall.trans hbump, hnext, ?_⟩
      rw [hnext, newEnd, newHeader]
      omega

/-- For every heap in its region and every request of 1 to `2 ^ 32 - 1` bytes that is
    larger than every free block: the check is exact if and only if the end of the
    new block is below `2 ^ 32`; or wraps to an address behind the region, and the
    rounded request does not wrap to 0 while there are free blocks. -/
theorem out_of_memory_exact_iff (hm : Managed h free) (hn : 0 < n) (hn' : n < 2 ^ 32)
    (hfit : ∀ b ∈ free, b.size < n) :
    ExactCheck h n ↔ newEnd h n < 2 ^ 32 ∨
      h.freeRamEnd < newEnd h n % 2 ^ 32 ∧ (n + 7 < 2 ^ 32 ∨ free = []) := by
  have hbound := hm.bound
  by_cases hwrap : n + 7 < 2 ^ 32
  · have hge := (alignUp_eight hwrap).1
    rw [exactCheck_iff_of_extend hm.top hbound
      (hm.kmalloc_extend hn hn' fun b hb => (hfit b hb).trans_le hge)]
    simp only [hwrap, true_or, and_true]
  · have htop : 2 ^ 32 ≤ newEnd h n := by
      rw [newEnd]
      omega
    cases free with
    | nil =>
      rw [exactCheck_iff_of_extend hm.top hbound (hm.kmalloc_extend hn hn' fun b hb => by cases hb)]
      simp
    | cons b post =>
      have hsome := hm.kmalloc_wrapped hn hn' (by omega)
      constructor
      · intro hexact
        rw [hexact.halts.mpr (by omega)] at hsome
        cases hsome
      · rintro (hlt | ⟨-, hlt | hnil⟩)
        · omega
        · exact absurd hlt hwrap
        · cases hnil

/-- A request of 100 bytes in the heap of 4 KiB. -/
theorem out_of_memory_exact_iff_hundred :
    Managed smallHeap [] ∧ ExactCheck smallHeap 100 ∧ ¬ExactCheck smallHeap 0xFFFFF000 := by
  have hm : Managed smallHeap [] :=
    ⟨⟨rfl, fun b hb => (by cases hb)⟩, (Layout.empty _ _).toArranged, by decide, by decide, by decide⟩
  refine ⟨hm, ?_, ?_⟩
  · rw [out_of_memory_exact_iff hm (by decide) (by decide) fun b hb => (by cases hb)]
    decide
  · rw [out_of_memory_exact_iff hm (by decide) (by decide) fun b hb => (by cases hb)]
    decide

/-- A request of almost 4 GiB in the heap of 4 KiB is granted, and `bump_next` moves
    back below the region. -/
theorem huge_request_granted : ∃ h', kmalloc smallHeap 0xFFFFF000 = some (4108, h') ∧
    h'.bumpNext = 12 ∧ ¬ExactCheck smallHeap 0xFFFFF000 := by
  have hrun : (kmalloc smallHeap 0xFFFFF000).map (fun r => (r.1, r.2.bumpNext)) =
      some (4108, 12) := by
    decide +kernel
  obtain ⟨⟨p, h'⟩, hcall, hval⟩ := Option.map_eq_some_iff.mp hrun
  obtain ⟨rfl, hnext⟩ := Prod.mk.inj hval
  refine ⟨h', hcall, hnext, fun hexact => ?_⟩
  rw [hexact.halts.mpr (by decide)] at hcall
  cases hcall

end Mboot.Heap
