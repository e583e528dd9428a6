import Mboot.Common.Budget
import Mboot.Heap.Invariant

/-!
# The heap as its clients see it

`Owned h U`: the addresses in `U` belong to somebody. They are not free memory of
the heap: not in a block of the free list, and not behind the bump pointer. The code
that uses the heap, and frees nothing, needs two rules:

* `kmalloc_spends`: a new block is disjoint from `U`, cleared, and belongs to
  the caller; memory in `U` is unchanged (`Grant`). The call returns if there is
  room.
* `Owned.write`: memory in `U` may be written.

The region is taken to end 8 MiB below the top of the address space, so that no
request of at most 4 MiB wraps.
-/

namespace Mboot.Heap

open Common

/-- A program of the kernel on the heap; `none` stands for the `HALT` of
    `kmalloc`. -/
abbrev Kernel := StateT HeapState Option

/-- The bytes of the region behind the bump pointer. -/
def room (h : HeapState) : ℕ := h.freeRamEnd - h.bumpNext

/-- The address is not free memory of the heap. -/
def InUse (h : HeapState) (free : List Block) (x : ℕ) : Prop :=
  (∀ b ∈ free, x < b.addr ∨ b.stop ≤ x) ∧ (x < h.bumpNext ∨ h.freeRamEnd ≤ x)

/-- The addresses in `U` are in use. -/
structure Owned (h : HeapState) (U : Set ℕ) : Prop where
  region : h.freeRam ≤ h.freeRamEnd
  top : h.freeRamEnd + 2 ^ 23 ≤ 2 ^ 32
  used : ∃ free, Inv h free [] ∧ ∀ x ∈ U, InUse h free x

/-- The block of `n` bytes at `p` is new: `h` was the heap before the call, `h'`
    is the heap behind it. -/
structure Grant (h : HeapState) (U : Set ℕ) (n p : ℕ) (h' : HeapState) : Prop where
  owned : Owned h' (U ∪ Set.Ico p (p + n))
  fresh : ∀ x ∈ U, x < p ∨ p + n ≤ x
  nonnull : 12 ≤ p
  bound : p + n + 2 ^ 23 ≤ 2 ^ 32
  keep : ∀ x ∈ U, h'.mem x = h.mem x
  zero : ∀ i < n, h'.mem (p + i) = 0

section

variable {h h' : HeapState} {U V : Set ℕ} {n p : ℕ} {free : List Block} {live : List (ℕ × ℕ)}

theorem Owned.mono (ho : Owned h U) (hV : V ⊆ U) : Owned h V where
  region := ho.region
  top := ho.top
  used := by
    obtain ⟨free, hi, hused⟩ := ho.used
    exact ⟨free, hi, fun x hx => hused x (hV hx)⟩

theorem Owned.union (ho : Owned h U) (ho' : Owned h V) : Owned h (U ∪ V) where
  region := ho.region
  top := ho.top
  used := by
    obtain ⟨free, hi, hU⟩ := ho.used
    obtain ⟨free', hi', hV⟩ := ho'.used
    obtain rfl := hi.list.unique hi'.list hi.layout.nonnull hi'.layout.nonnull
    exact ⟨free, hi, fun x hx => hx.elim (hU x) (hV x)⟩

/-- Memory in use may be written: no header of a free block is. -/
theorem Owned.write (ho : Owned h U) {mem : ℕ → UInt8} (hm : ∀ x ∉ U, mem x = h.mem x) :
    Owned { h with mem := mem } U where
  region := ho.region
  top := ho.top
  used := by
    obtain ⟨free, hi, hused⟩ := ho.used
    have hlist : ∀ b ∈ free, header mem b.addr = header h.mem b.addr := by
      refine fun b hb => header_congr fun i hlt => hm _ fun hx => ?_
      have := (hused _ hx).1 b hb
      simp only [Block.stop] at this
      omega
    exact ⟨free, ⟨hi.list.congr hlist, hi.layout, hi.low, hi.bound, hi.top, by simp⟩, hused⟩

/-! ## Allocation -/

theorem Inv.bumpNext_le (hi : Inv h free live) (hreg : h.freeRam ≤ h.freeRamEnd) :
    h.bumpNext ≤ h.freeRamEnd := by
  have := hi.top
  omega

/-- A request of at most 4 MiB does not wrap. -/
theorem Inv.noWrap (hi : Inv h free live) (hreg : h.freeRam ≤ h.freeRamEnd)
    (htop : h.freeRamEnd + 2 ^ 23 ≤ 2 ^ 32) (hn : n ≤ 2 ^ 22) : NoWrap h n := by
  have hbump := hi.bumpNext_le hreg
  obtain ⟨-, hwant⟩ := alignUp_eight (x := n) (by omega)
  refine ⟨by omega, ?_⟩
  rw [hi.startBump]
  generalize alignUpUintptr n 8 = want at *
  intro r hr
  cases hf : free.find? fun b => want ≤ b.size with
  | none =>
    have hfit : ∀ b ∈ free, b.size < want := by simpa using hf
    rw [find_none hi.list hi.layout.toArranged hi.bound hfit, Option.mem_some_iff] at hr
    subst hr
    obtain ⟨-, hround⟩ := alignUp_eight (x := h.bumpNext) (by omega)
    simp only [ne_eq, not_true_eq_false, if_false]
    omega
  | some b =>
    obtain ⟨hb, pre, post, rfl, hpre⟩ := List.find?_eq_some_iff_append.mp hf
    have hb : want ≤ b.size := by simpa using hb
    have hmem : b ∈ pre ++ b :: post := by simp
    obtain ⟨h1, hfind, -⟩ := find_some hi.list hi.layout.toArranged hi.bound
      (fun a ha => by simpa using hpre a ha) hb
    rw [hfind, Option.mem_some_iff] at hr
    subst hr
    have hin := (hi.layout.inside b (List.mem_append_left _ hmem)).2
    have hstop : b.stop = b.addr + 12 + b.size := rfl
    simp only [ne_eq, hi.layout.nonnull b hmem, not_false_eq_true, if_true]
    omega

/-- Without the blocks that are live. -/
theorem Inv.forget (hi : Inv h free live) : Inv h free [] where
  list := hi.list
  layout :=
    { inside := fun b hb => hi.layout.inside b (List.mem_append_left _ (by simpa using hb))
      ordered := hi.layout.ordered
      pairs := .nil
      cross := nofun
      nonnull := hi.layout.nonnull
      gaps := hi.layout.gaps }
  low := hi.low
  bound := hi.bound
  top := hi.top
  served := nofun

/-- An allocation takes free memory. -/
theorem Allocates.inUse {want : ℕ} {b : Block} {free' : List Block} {x : ℕ}
    (ha : Allocates want h.bumpNext free b h'.bumpNext free') (hend : h'.bumpNext ≤ h.freeRamEnd)
    (hram : h'.freeRamEnd = h.freeRamEnd) (hx : InUse h free x) :
    InUse h' free' x ∧ (x < b.addr ∨ b.stop ≤ x) := by
  obtain ⟨hfree, hbump⟩ := hx
  unfold InUse
  generalize h'.bumpNext = hi at *
  cases ha with
  | @reuse pre post b hpre hb =>
    have hout := hfree b (by simp)
    simp only [Block.stop] at hout
    refine ⟨⟨fun c hc => ?_, by omega⟩, ?_⟩
    · obtain hc | hc | hc : c ∈ pre ∨ c ∈ b.rest want ∨ c ∈ post := by simpa using hc
      · exact hfree c (by simp [hc])
      · unfold Block.rest at hc
        split_ifs at hc
        · cases hc
        · rw [List.mem_singleton.mp hc]
          simp only [Block.stop]
          omega
      · exact hfree c (by simp [hc])
    · simp only [Block.cut, Block.stop]
      split_ifs <;> omega
  | extend hfit hhdr =>
    refine ⟨⟨hfree, by omega⟩, ?_⟩
    simp only [Block.stop]
    omega

/-- What a call of `kmalloc` leaves behind. -/
theorem Allocated.grant (hreg : h.freeRam ≤ h.freeRamEnd) (htop : h.freeRamEnd + 2 ^ 23 ≤ 2 ^ 32)
    (hused : ∀ x ∈ U, InUse h free x) {free' : List Block} (hn : n ≤ alignUpUintptr n 8)
    (hd : Allocated h free [] n p h' free') : Grant h U n p h' := by
  have hram := hd.preserves.freeRam
  have hend := hd.preserves.freeRamEnd
  have hbump := hd.inv.bumpNext_le (by omega)
  obtain ⟨hp, hsize⟩ := hd.inv.served (p, n) List.mem_cons_self
  have hblock : blockOf h'.mem p ∈ [(p, n)].map fun g => blockOf h'.mem g.1 := by simp
  obtain ⟨hlo, hhi⟩ := hd.inv.layout.inside _ (List.mem_append_right _ hblock)
  have hstop : (blockOf h'.mem p).stop = p - 12 + 12 + blockSize h'.mem (p - 12) := rfl
  have haddr : (blockOf h'.mem p).addr = p - 12 := rfl
  simp only at hp hsize
  have hout : ∀ x ∈ U, InUse h' free' x ∧ (x < p - 12 ∨ (blockOf h'.mem p).stop ≤ x) := fun x hx =>
    hd.blocks.inUse (by omega) hend (hused x hx)
  refine ⟨⟨by omega, by omega, free', hd.inv.forget, fun x hx => ?_⟩, fun x hx => ?_,
    by omega, by omega, fun x hx => hd.frame x fun b hb => ?_, fun i hi => hd.zero i (by omega)⟩
  · obtain hx | ⟨hx1, hx2⟩ := hx
    · exact (hout x hx).1
    · refine ⟨fun b hb => ?_, by omega⟩
      have := hd.inv.layout.cross b hb _ hblock
      simp only [Block.Disj] at this
      omega
  · have := (hout x hx).2
    omega
  · obtain rfl | hb := List.mem_cons.mp hb
    · exact (hout x hx).2
    · exact (hused x hx).1 b hb

/-- `kmalloc` of at most 4 MiB. -/
theorem kmalloc_spends (ho : Owned h U) (hn : 0 < n) (hn' : n ≤ 2 ^ 22) :
    Spends room (n + 26) (fun h => kmalloc h n) h (Grant h U n) := by
  obtain ⟨free, hi, hused⟩ := ho.used
  have hreg := ho.region
  have htop := ho.top
  have hw := hi.noWrap hreg htop hn'
  have hbump := hi.bumpNext_le hreg
  obtain ⟨hge, hwant⟩ := alignUp_eight (x := n) (by omega)
  obtain ⟨-, hround⟩ := alignUp_eight (x := h.bumpNext) (by omega)
  constructor
  · intro hroom
    obtain ⟨hfull, -⟩ | ⟨p, h', free', hcall, -⟩ := kmalloc_spec hi hn hw
    · unfold room at hroom
      omega
    · simp only [hcall, Option.isSome_some]
  · intro p h' hcall
    obtain ⟨free', hdone⟩ := kmalloc_allocated hi hn hw hcall
    refine ⟨hdone.grant hreg htop hused hge, ?_⟩
    have hmove := hdone.blocks.hi_le
    have hend := hdone.preserves.freeRamEnd
    unfold room
    omega

end

end Mboot.Heap
