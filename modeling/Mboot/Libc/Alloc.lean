import Mboot.Common.Memory
import Mboot.Common.Run

/-!
# The heap of a program

Model of `malloc`, `calloc` and `realloc` of the C library (`user/src/libc.c`, lines
159–174 and 212–246): a bump pointer `heap_used` into an array of 65536 bytes. All
arithmetic on sizes is done in 32 bits, the bound test of `malloc` and the product of
`calloc` included.

* `heap_blocks_iff`: along any sequence of calls, the blocks returned lie inside the heap
  and are disjoint, and `realloc` keeps the contents of the block it is given, if and
  only if no call is granted whose request wraps around.
* `heap_blocks_overlap`: three calls after which two blocks overlap.
-/

namespace Mboot.Libc

open Mboot.Common

/-- The array `heap` (line 212) in the address space of the program. -/
structure HeapArray where
  addr : ℕ
  fits : addr + 65536 ≤ 2 ^ 32

/-- `heap_used` (line 213) and the memory of the program. -/
structure UserHeap where
  heapUsed : UInt32
  mem : ℕ → UInt8

/-- `memcpy` (lines 159–166), byte by byte upwards. -/
def memcpy (mem : ℕ → UInt8) (dst src : ℕ) : ℕ → ℕ → UInt8
  | 0 => mem
  | i + 1 =>
    let m := memcpy mem dst src i
    Function.update m ((dst + i) % 2 ^ 32) (m ((src + i) % 2 ^ 32))

/-- `memset` (lines 168–174). -/
def memset (mem : ℕ → UInt8) (ptr : ℕ) (value : UInt8) : ℕ → ℕ → UInt8
  | 0 => mem
  | i + 1 => Function.update (memset mem ptr value i) ((ptr + i) % 2 ^ 32) value

/-- `malloc` (lines 217–224); `none` is the null pointer. -/
def malloc (heap : HeapArray) (h : UserHeap) (size : UInt32) : Option ℕ × UserHeap :=
  if h.heapUsed + size ≥ 65536 then (none, h)
  else (some (heap.addr + h.heapUsed.toNat), { h with heapUsed := h.heapUsed + size })

/-- `calloc` (lines 226–233). -/
def calloc (heap : HeapArray) (h : UserHeap) (num size : UInt32) : Option ℕ × UserHeap :=
  let total := num * size
  match malloc heap h total with
  | (some ptr, h) => (some ptr, { h with mem := memset h.mem ptr 0 total.toNat })
  | (none, h) => (none, h)

/-- `realloc` (lines 235–246). The copy length is read after `malloc` has moved
    `heap_used`. -/
def realloc (heap : HeapArray) (h : UserHeap) (ptr : Option ℕ) (size : UInt32) :
    Option ℕ × UserHeap :=
  match ptr with
  | none => malloc heap h size
  | some ptr =>
    match malloc heap h size with
    | (some newPtr, h) =>
      let length := if size < h.heapUsed then size else h.heapUsed
      (some newPtr, { h with mem := memcpy h.mem newPtr ptr length.toNat })
    | (none, h) => (none, h)

/-! ## Copying upwards -/

variable {mem : ℕ → UInt8} {dst src n i x : ℕ}

theorem memcpy_of_outside (hd : dst + n ≤ 2 ^ 32) (h : x < dst ∨ dst + n ≤ x) :
    memcpy mem dst src n x = mem x := by
  induction n with
  | zero => rfl
  | succ n ih =>
    have hx : x ≠ (dst + n) % 2 ^ 32 := by
      rw [Nat.mod_eq_of_lt (by omega)]
      omega
    rw [memcpy, Function.update_of_ne hx]
    exact ih (by omega) (by omega)

/-- The bytes below the target are copied as they were, also when the two ranges
    overlap. -/
theorem memcpy_apply (hd : dst + n ≤ 2 ^ 32) (hi : i < n) (h : src + i < dst) :
    memcpy mem dst src n (dst + i) = mem (src + i) := by
  induction n with
  | zero => exact absurd hi (Nat.not_lt_zero i)
  | succ n ih =>
    rw [memcpy, Nat.mod_eq_of_lt (show dst + n < 2 ^ 32 by omega)]
    obtain hlt | rfl := Nat.lt_succ_iff_lt_or_eq.mp hi
    · rw [Function.update_of_ne (by omega)]
      exact ih (by omega) hlt
    · rw [Function.update_self, Nat.mod_eq_of_lt (by omega)]
      exact memcpy_of_outside (by omega) (Or.inl h)

/-! ## Runs of calls -/

/-- What the program does with its heap. -/
inductive HeapCall
  | malloc (size : UInt32)
  | calloc (num size : UInt32)
  | realloc (ptr : Option ℕ) (size : UInt32)
  | write (a : ℕ) (b : UInt8)

/-- The number of bytes a call asks for, in unbounded integers. -/
def HeapCall.request : HeapCall → Option ℕ
  | .malloc size => some size.toNat
  | .calloc num size => some (num.toNat * size.toNat)
  | .realloc _ size => some size.toNat
  | .write .. => none

/-- The heap with the ranges returned so far, the latest first, each with the number of
    bytes asked for. `kept` says whether every `realloc` so far kept the contents of the
    block it was given. -/
structure HeapRun where
  heap : UserHeap
  blocks : List (ℕ × ℕ)
  kept : Bool

/-- The ranges returned so far and a new result. -/
def record (blocks : List (ℕ × ℕ)) (request : ℕ) : Option ℕ → List (ℕ × ℕ)
  | some ptr => (ptr, request) :: blocks
  | none => blocks

/-- The block of `m` bytes at `ptr`, for every block that starts there, is found again at
    `newPtr` in its first `min m n` bytes. -/
def Keeps (before after : ℕ → UInt8) (blocks : List (ℕ × ℕ)) (ptr newPtr n : ℕ) : Prop :=
  ∀ b ∈ blocks, b.1 = ptr → slice after newPtr (min b.2 n) = slice before ptr (min b.2 n)

instance (before after : ℕ → UInt8) (blocks : List (ℕ × ℕ)) (ptr newPtr n : ℕ) :
    Decidable (Keeps before after blocks ptr newPtr n) :=
  inferInstanceAs (Decidable (∀ b ∈ blocks, _))

/-- One call. -/
def heapStep (heap : HeapArray) (s : HeapRun) : HeapCall → HeapRun
  | .malloc size =>
    let r := malloc heap s.heap size
    { s with heap := r.2, blocks := record s.blocks size.toNat r.1 }
  | .calloc num size =>
    let r := calloc heap s.heap num size
    { s with heap := r.2, blocks := record s.blocks (num.toNat * size.toNat) r.1 }
  | .realloc ptr size =>
    let r := realloc heap s.heap ptr size
    let kept := match ptr, r.1 with
      | some p, some q => decide (Keeps s.heap.mem r.2.mem s.blocks p q size.toNat)
      | _, _ => true
    { heap := r.2, blocks := record s.blocks size.toNat r.1, kept := s.kept && kept }
  | .write a b => { s with heap := { s.heap with mem := Function.update s.heap.mem a b } }

/-- The start of the program. -/
def heapStart (mem : ℕ → UInt8) : HeapRun := ⟨⟨0, mem⟩, [], true⟩

/-- Every range returned lies inside the heap and is disjoint from every other one, and
    no `realloc` has lost contents. -/
structure Sound (heap : HeapArray) (s : HeapRun) : Prop where
  inside : ∀ b ∈ s.blocks, heap.addr ≤ b.1 ∧ b.1 + b.2 ≤ heap.addr + 65536
  disjoint : s.blocks.Pairwise fun b c => b.1 + b.2 ≤ c.1 ∨ c.1 + c.2 ≤ b.1
  kept : s.kept = true

/-- The request of the call does not wrap around, or the call is refused all the same. -/
def NoWrap (s : HeapRun) (c : HeapCall) : Prop :=
  ∀ n ∈ c.request, s.heap.heapUsed.toNat + n < 2 ^ 32 ∨
    65536 ≤ (s.heap.heapUsed.toNat + n) % 2 ^ 32

/-- The bump pointer is inside the heap, and every block below it. -/
structure Bumped (heap : HeapArray) (s : HeapRun) : Prop extends Sound heap s where
  used : s.heap.heapUsed.toNat < 65536
  below : ∀ b ∈ s.blocks, b.1 + b.2 ≤ heap.addr + s.heap.heapUsed.toNat

/-! ## One call -/

section Step

variable {heap : HeapArray} {h h' : UserHeap} {s : HeapRun} {ptr p : ℕ}

/-- What `malloc` does, for a request of `n` bytes that reaches it modulo `2 ^ 32`. -/
theorem malloc_cases (heap : HeapArray) (h : UserHeap) {size : UInt32}
    (hn : size.toNat = n % 2 ^ 32) :
    (65536 ≤ (h.heapUsed.toNat + n) % 2 ^ 32 ∧ malloc heap h size = (none, h)) ∨
    ((h.heapUsed.toNat + n) % 2 ^ 32 < 65536 ∧ ∃ used : UInt32,
      used.toNat = (h.heapUsed.toNat + n) % 2 ^ 32 ∧
      malloc heap h size = (some (heap.addr + h.heapUsed.toNat), { h with heapUsed := used })) := by
  have hsum : (h.heapUsed + size).toNat = (h.heapUsed.toNat + n) % 2 ^ 32 := by
    rw [UInt32.toNat_add, hn, Nat.add_mod_mod]
  have hge : h.heapUsed + size ≥ 65536 ↔ 65536 ≤ (h.heapUsed.toNat + n) % 2 ^ 32 := by
    rw [ge_iff_le, UInt32.le_iff_toNat_le, hsum]
    rfl
  by_cases hbig : 65536 ≤ (h.heapUsed.toNat + n) % 2 ^ 32
  · exact .inl ⟨hbig, if_pos (hge.mpr hbig)⟩
  · exact .inr ⟨not_le.mp hbig, _, hsum, if_neg (mt hge.mp hbig)⟩

/-- A `realloc` that does not wrap copies the whole new block, so that what the old one
    held comes first in it. -/
theorem Bumped.keeps (hs : Bumped heap s) {size used : UInt32}
    (hnew : used.toNat = s.heap.heapUsed.toNat + size.toNat) (hend : used.toNat < 65536) (p : ℕ) :
    Keeps s.heap.mem (memcpy s.heap.mem (heap.addr + s.heap.heapUsed.toNat) p
      (if size < used then size else used).toNat) s.blocks p
      (heap.addr + s.heap.heapUsed.toNat) size.toNat := by
  have hlen : (if size < used then size else used).toNat = size.toNat := by
    split_ifs with hlt
    · rfl
    · rw [UInt32.lt_iff_toNat_lt] at hlt
      omega
  have hfits := heap.fits
  rw [hlen]
  intro b hb hbp
  have hbelow := hs.below b hb
  apply List.ext_getElem
  · simp
  · intro i hi _
    rw [length_slice] at hi
    rw [getElem_slice, getElem_slice]
    exact memcpy_apply (by omega) (by omega) (by omega)

/-- What a call that asks for memory does. -/
theorem heapStep_cases (heap : HeapArray) (s : HeapRun) {c : HeapCall} (hc : c.request = some n) :
    (65536 ≤ (s.heap.heapUsed.toNat + n) % 2 ^ 32 ∧ heapStep heap s c = s) ∨
    ((s.heap.heapUsed.toNat + n) % 2 ^ 32 < 65536 ∧
      (heapStep heap s c).heap.heapUsed.toNat = (s.heap.heapUsed.toNat + n) % 2 ^ 32 ∧
      (heapStep heap s c).blocks = (heap.addr + s.heap.heapUsed.toNat, n) :: s.blocks ∧
      (Bumped heap s → s.heap.heapUsed.toNat + n < 2 ^ 32 → (heapStep heap s c).kept = true)) := by
  cases c with
  | malloc size =>
    cases hc
    obtain ⟨hbig, hm⟩ | ⟨hlt, used, hused, hm⟩ :=
      malloc_cases heap s.heap (Nat.mod_eq_of_lt size.toNat_lt).symm
    · refine .inl ⟨hbig, ?_⟩
      simp only [heapStep, hm, record]
    · refine .inr ⟨hlt, ?_, ?_, fun hs _ => ?_⟩
      · simp only [heapStep, hm, hused]
      · simp only [heapStep, hm, record]
      · exact hs.kept
  | calloc num size =>
    cases hc
    obtain ⟨hbig, hm⟩ | ⟨hlt, used, hused, hm⟩ :=
      malloc_cases heap s.heap (UInt32.toNat_mul num size)
    · refine .inl ⟨hbig, ?_⟩
      simp only [heapStep, calloc, hm, record]
    · refine .inr ⟨hlt, ?_, ?_, fun hs _ => ?_⟩
      · simp only [heapStep, calloc, hm, hused]
      · simp only [heapStep, calloc, hm, record]
      · exact hs.kept
  | realloc ptr size =>
    cases hc
    obtain ⟨hbig, hm⟩ | ⟨hlt, used, hused, hm⟩ :=
      malloc_cases heap s.heap (Nat.mod_eq_of_lt size.toNat_lt).symm
    · refine .inl ⟨hbig, ?_⟩
      cases ptr <;> simp [heapStep, realloc, hm, record]
    · refine .inr ⟨hlt, ?_, ?_, fun hs hno => ?_⟩
      · cases ptr <;> simp [heapStep, realloc, hm, hused]
      · cases ptr <;> simp [heapStep, realloc, hm, record]
      · cases ptr with
        | none => simp [heapStep, realloc, hm, hs.kept]
        | some p =>
          rw [Nat.mod_eq_of_lt hno] at hused hlt
          simp [heapStep, realloc, hm, hs.kept, hs.keeps hused (hused ▸ hlt) p]
  | write a b => cases hc

/-- A call that does not wrap keeps the invariant. -/
theorem Bumped.step (hs : Bumped heap s) {c : HeapCall} (hc : NoWrap s c) :
    Bumped heap (heapStep heap s c) := by
  cases hreq : c.request with
  | none =>
    cases c with
    | write a b => exact ⟨⟨hs.inside, hs.disjoint, hs.kept⟩, hs.used, hs.below⟩
    | _ => cases hreq
  | some n =>
    obtain ⟨-, heq⟩ | ⟨hlt, hused, hblocks, hkept⟩ := heapStep_cases heap s hreq
    · rw [heq]
      exact hs
    · have hno : s.heap.heapUsed.toNat + n < 2 ^ 32 :=
        (hc n hreq).resolve_right (not_le.mpr hlt)
      rw [Nat.mod_eq_of_lt hno] at hlt hused
      refine ⟨⟨?_, ?_, hkept hs hno⟩, by omega, ?_⟩
      · rw [hblocks, List.forall_mem_cons]
        exact ⟨⟨Nat.le_add_right _ _, by omega⟩, hs.inside⟩
      · rw [hblocks, List.pairwise_cons]
        exact ⟨fun b hb => .inr (hs.below b hb), hs.disjoint⟩
      · rw [hblocks, List.forall_mem_cons]
        refine ⟨by omega, fun b hb => ?_⟩
        have hbelow := hs.below b hb
        omega

/-- A call that wraps and is granted returns a range that is larger than the heap. -/
theorem noWrap_of_sound {c : HeapCall} (hafter : Sound heap (heapStep heap s c)) :
    NoWrap s c := by
  intro n hn
  obtain ⟨hbig, -⟩ | ⟨-, -, hblocks, -⟩ := heapStep_cases heap s hn
  · exact .inr hbig
  · have hinside := (hafter.inside (heap.addr + s.heap.heapUsed.toNat, n) (by simp [hblocks])).2
    left
    omega

end Step

/-- **The blocks of a program's heap.** For every sequence of calls of `malloc`, `calloc`
    and `realloc` with any 32-bit arguments, between which the program writes its memory,
    the ranges returned are those asked for, inside the heap and disjoint, and `realloc`
    keeps the contents of a block, in every state on the way if and only if no call on
    the way wraps around and is granted. -/
theorem heap_blocks_iff (heap : HeapArray) (mem : ℕ → UInt8) (calls : List HeapCall) :
    (∀ done s, done <+: calls →
        Run (fun s c s' => heapStep heap s c = s') (heapStart mem) done s → Sound heap s) ↔
      ∀ done c s s', done ++ [c] <+: calls →
        Run (fun s c s' => heapStep heap s c = s') (heapStart mem) done s →
        heapStep heap s c = s' → NoWrap s c := by
  refine always_iff_of_invariant (I := Bumped heap) ?_ ?_ ?_ ?_ calls
  · exact ⟨⟨by simp [heapStart], by simp [heapStart], rfl⟩, by simp [heapStart],
      by simp [heapStart]⟩
  · intro s hs
    exact hs.toSound
  · rintro s c s' hs rfl hc
    exact hs.step hc
  · rintro s c s' - rfl hafter
    exact noWrap_of_sound hafter

/-- After a block of 16 bytes, a request for `0xFFFFFFF8` bytes wraps around: it is
    granted and moves `heap_used` back to 8, so that the next block of 8 bytes lies
    inside the first one. -/
theorem heap_blocks_overlap :
    ∃ s, Run (fun s c s' => heapStep ⟨0x50001000, by decide⟩ s c = s') (heapStart fun _ => 0)
        [.malloc 16, .malloc 0xFFFFFFF8, .malloc 8] s ∧
      s.blocks = [(0x50001008, 8), (0x50001010, 0xFFFFFFF8), (0x50001000, 16)] ∧
      ¬ Sound ⟨0x50001000, by decide⟩ s := by
  have hblocks : ([.malloc 16, .malloc 0xFFFFFFF8, .malloc 8].foldl
      (heapStep ⟨0x50001000, by decide⟩) (heapStart fun _ => 0)).blocks =
      [(0x50001008, 8), (0x50001010, 0xFFFFFFF8), (0x50001000, 16)] := by decide
  refine ⟨_, run_foldl _ _ _, hblocks, fun hsound => ?_⟩
  have hdisjoint := hsound.disjoint
  rw [hblocks] at hdisjoint
  revert hdisjoint
  decide

end Mboot.Libc
