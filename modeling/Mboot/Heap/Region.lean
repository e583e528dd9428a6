import Mboot.Heap.Model

/-!
# The region of the heap

Model of `init_alloc` (`stage2/mem.c`, lines 74–95): the choice of one entry of the
E820 memory map for the heap. The search starts from entry 0 whatever its type is,
and the 64-bit bounds of the entry are stored in 32-bit variables.

* `biggestIndex_firstLongest`: what the search finds.
* `region_ok_iff`: when the heap gets a region of usable memory.
-/

namespace Mboot.Heap

/-- `e820_entry_t` (`mem.h`, lines 10–15), without the attributes, which nothing
    reads. -/
structure E820Entry where
  base : UInt64
  length : UInt64
  type : UInt32

/-- The search of `init_alloc` (lines 82–89). -/
def biggestIndex (count : ℕ) (entries : ℕ → E820Entry) : ℕ :=
  (List.range count).foldl (fun biggest i =>
    if (entries i).type = 1 ∧ (entries i).length > (entries biggest).length then i else biggest) 0

/-- `init_alloc`. The functions it calls before the search only print the map. -/
def initAlloc (count : UInt16) (entries : ℕ → E820Entry) (h : HeapState) : HeapState :=
  let biggest := entries (biggestIndex count.toNat entries)
  let freeRam := biggest.base.toNat % 2 ^ 32
  { h with
    freeRam := freeRam
    freeRamEnd := (biggest.base + biggest.length).toNat % 2 ^ 32
    bumpNext := freeRam }

variable {count : ℕ} {entries : ℕ → E820Entry} {w i : ℕ}

/-- The entries that the search looks at. -/
def Eligible (entries : ℕ → E820Entry) (i : ℕ) : Prop := i = 0 ∨ (entries i).type = 1

/-- `w` is the first of the longest entries that the search looks at. -/
structure FirstLongest (count : ℕ) (entries : ℕ → E820Entry) (w : ℕ) : Prop where
  lt : w < count
  eligible : Eligible entries w
  longest : ∀ i < count, Eligible entries i → (entries i).length.toNat ≤ (entries w).length.toNat
  first : ∀ i < w, Eligible entries i → (entries i).length.toNat < (entries w).length.toNat

theorem FirstLongest.zero (entries : ℕ → E820Entry) : FirstLongest 1 entries 0 := by
  refine ⟨Nat.one_pos, .inl rfl, fun i hi _ => ?_, fun i hi => absurd hi (Nat.not_lt_zero i)⟩
  obtain rfl : i = 0 := by omega
  exact le_rfl

/-- One round of the search. -/
theorem FirstLongest.step (hw : FirstLongest count entries w) :
    FirstLongest (count + 1) entries (if (entries count).type = 1 ∧
      (entries count).length > (entries w).length then count else w) := by
  split_ifs with hbig
  · obtain ⟨htype, hgt⟩ := hbig
    have hgt := UInt64.lt_iff_toNat_lt.mp hgt
    refine ⟨Nat.lt_succ_self _, .inr htype, fun i hi he => ?_, fun i hi he => ?_⟩
    · obtain hi | rfl := Nat.lt_succ_iff_lt_or_eq.mp hi
      · exact (hw.longest i hi he).trans hgt.le
      · exact le_rfl
    · exact (hw.longest i hi he).trans_lt hgt
  · refine ⟨hw.lt.trans (Nat.lt_succ_self _), hw.eligible, fun i hi he => ?_, hw.first⟩
    obtain hi | rfl := Nat.lt_succ_iff_lt_or_eq.mp hi
    · exact hw.longest i hi he
    · obtain rfl | htype := he
      · exact absurd hw.lt (Nat.not_lt_zero w)
      · exact not_lt.mp fun hgt => hbig ⟨htype, UInt64.lt_iff_toNat_lt.mpr hgt⟩

/-- The search finds the first of the longest entries. -/
theorem biggestIndex_firstLongest (entries : ℕ → E820Entry) {n : ℕ} (hc : 0 < n) :
    FirstLongest n entries (biggestIndex n entries) := by
  induction n, hc using Nat.le_induction with
  | base =>
    have hzero : biggestIndex 1 entries = 0 := by simp [biggestIndex]
    rw [hzero]
    exact .zero entries
  | succ count hc ih =>
    rw [biggestIndex, List.range_succ, List.foldl_append]
    exact ih.step

theorem FirstLongest.unique (hw : FirstLongest count entries w) (hi : FirstLongest count entries i) :
    w = i := by
  obtain hlt | heq | hgt := lt_trichotomy w i
  · exact absurd (hi.first w hlt hw.eligible) (not_lt.mpr (hw.longest i hi.lt hi.eligible))
  · exact heq
  · exact absurd (hw.first i hgt hi.eligible) (not_lt.mpr (hi.longest w hw.lt hw.eligible))

/-! ## The choice -/

/-- The address behind the entry, on integers. -/
def E820Entry.stop (e : E820Entry) : ℕ := e.base.toNat + e.length.toNat

/-- The heap has a region of usable memory with the bounds that the search found, as long as
    any usable entry below 4 GiB. -/
structure RegionOk (count : ℕ) (entries : ℕ → E820Entry) (h : HeapState) : Prop where
  nonempty : h.freeRam < h.freeRamEnd
  untruncated : h.freeRam = (entries (biggestIndex count entries)).base.toNat ∧
    h.freeRamEnd = (entries (biggestIndex count entries)).stop
  usable : ∃ i < count, (entries i).type = 1 ∧ (entries i).base.toNat ≤ h.freeRam ∧
    h.freeRamEnd ≤ (entries i).stop
  longest : ∀ i < count, (entries i).type = 1 → (entries i).stop ≤ 2 ^ 32 →
    (entries i).length.toNat ≤ h.freeRamEnd - h.freeRam

/-- For every memory map of at least one entry: the region is a good one if and only
    if the first of the longest among entry 0 and the usable entries is not empty,
    ends below 4 GiB, and is usable or has the bounds of a usable entry. -/
theorem region_ok_iff {count : UInt16} (hc : 0 < count) (h : HeapState) :
    RegionOk count.toNat entries (initAlloc count entries h) ↔
      ∃ w, FirstLongest count.toNat entries w ∧ 0 < (entries w).length.toNat ∧
        (entries w).stop < 2 ^ 32 ∧ ∃ i < count.toNat, (entries i).type = 1 ∧
          (entries i).base = (entries w).base ∧ (entries i).length = (entries w).length := by
  have hw := biggestIndex_firstLongest (n := count.toNat) entries (UInt16.lt_iff_toNat_lt.mp hc)
  constructor
  · intro hok
    obtain ⟨hbase, hstop⟩ := hok.untruncated
    obtain ⟨i, hi, htype, hlo, hhi⟩ := hok.usable
    have hnonempty := hok.nonempty
    have hle := hw.longest i hi (.inr htype)
    have hlt : (initAlloc count entries h).freeRamEnd < 2 ^ 32 := Nat.mod_lt _ (by norm_num)
    simp only [E820Entry.stop] at hstop hhi
    -- the usable entry is no longer than the one chosen, so it is the same range
    refine ⟨_, hw, by omega, by rw [E820Entry.stop]; omega, i, hi, htype, ?_, ?_⟩
    · exact UInt64.toNat_inj.mp (by omega)
    · exact UInt64.toNat_inj.mp (by omega)
  · rintro ⟨w, hfirst, hpos, hlt, i, hi, htype, hbase, hlen⟩
    obtain rfl := hw.unique hfirst
    have hram : (initAlloc count entries h).freeRam =
        (entries (biggestIndex count.toNat entries)).base.toNat := by
      rw [E820Entry.stop] at hlt
      exact Nat.mod_eq_of_lt (by omega)
    have hend : (initAlloc count entries h).freeRamEnd =
        (entries (biggestIndex count.toNat entries)).stop := by
      rw [E820Entry.stop] at hlt ⊢
      simp only [initAlloc, UInt64.toNat_add]
      omega
    refine ⟨?_, ⟨hram, hend⟩, ⟨i, hi, htype, ?_, ?_⟩, fun j hj htypej _ => ?_⟩
    · rw [hram, hend, E820Entry.stop]
      omega
    · rw [hram, hbase]
    · rw [hend, E820Entry.stop, E820Entry.stop, hbase, hlen]
    · have := hw.longest j hj (.inr htypej)
      rw [hram, hend, E820Entry.stop]
      omega

/-- The globals of `mem.c` before the call. -/
def zeroHeap : HeapState := ⟨fun _ => 0, 0, 0, 0, 0⟩

/-- The memory map of a virtual machine with 128 MiB. -/
def smallMap (i : ℕ) : E820Entry :=
  [⟨0, 0x9FC00, 1⟩, ⟨0x9FC00, 0x400, 2⟩, ⟨0xF0000, 0x10000, 2⟩, ⟨0x100000, 0x7EE0000, 1⟩,
    ⟨0x7FE0000, 0x20000, 2⟩, ⟨0xFFFC0000, 0x40000, 2⟩].getD i ⟨0, 0, 0⟩

theorem region_ok_iff_small : RegionOk 6 smallMap (initAlloc 6 smallMap zeroHeap) := by
  have hfirst := biggestIndex_firstLongest (n := 6) smallMap (by norm_num)
  have hindex : biggestIndex 6 smallMap = 3 := by decide
  rw [hindex] at hfirst
  have hc : (0 : UInt16) < 6 := by decide
  exact (region_ok_iff hc zeroHeap).mpr
    ⟨3, hfirst, by decide, by decide, 3, by decide, rfl, rfl, rfl⟩

/-- The memory map of a virtual machine with 8 GiB: the longest usable entry starts at
    4 GiB. -/
def largeMap (i : ℕ) : E820Entry :=
  [⟨0, 0x9FC00, 1⟩, ⟨0x9FC00, 0x400, 2⟩, ⟨0xF0000, 0x10000, 2⟩, ⟨0x100000, 0xBFEE0000, 1⟩,
    ⟨0xBFFE0000, 0x20000, 2⟩, ⟨0xFFFC0000, 0x40000, 2⟩,
    ⟨0x100000000, 0x140000000, 1⟩].getD i ⟨0, 0, 0⟩

/-- The heap is put at address 0, although entry 3 lies below 4 GiB. -/
theorem large_map_truncated : (initAlloc 7 largeMap zeroHeap).freeRam = 0 ∧
    (initAlloc 7 largeMap zeroHeap).freeRamEnd = 0x40000000 ∧
    ¬RegionOk 7 largeMap (initAlloc 7 largeMap zeroHeap) := by
  refine ⟨by decide, by decide, fun hok => ?_⟩
  have hindex : biggestIndex 7 largeMap = 6 := by decide
  have hbase := hok.untruncated.1
  rw [hindex] at hbase
  exact absurd hbase (by decide)

end Mboot.Heap
