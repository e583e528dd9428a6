import Mboot.Common.Run
import Mboot.Heap.FreeList

/-!
# The heap invariant

An `Arena` is a heap together with what its clients hold: for each live
allocation the pointer and the number of bytes asked for. Clients allocate,
free what they hold, and write to their payloads.

* `kmalloc_spec`, `kfree_spec`: one call keeps the invariant `Inv`, changes no
  other live block, and returns unless the region is used up.
* `heap_invariant`: the free list and the live blocks in every reachable state.
-/

namespace Mboot.Heap

open Common

/-! ## Allocations -/

theorem alignUpUintptr_eq {x k : ℕ} (hk : k ≤ 32) (hx : x + (2 ^ k - 1) < 2 ^ 32) :
    alignUpUintptr x (2 ^ k) = (x + (2 ^ k - 1)) / 2 ^ k * 2 ^ k := by
  rw [alignUpUintptr, Nat.mod_eq_of_lt hx]
  exact and_high_mask hx hk

theorem alignUp_eight_eq {x : ℕ} (hx : x + 7 < 2 ^ 32) :
    alignUpUintptr x 8 = (x + 7) / 8 * 8 := by
  have h := alignUpUintptr_eq (k := 3) (by norm_num) hx
  norm_num at h
  exact h

theorem alignUp_eight {x : ℕ} (hx : x + 7 < 2 ^ 32) :
    x ≤ alignUpUintptr x 8 ∧ alignUpUintptr x 8 < x + 8 := by
  have h := alignUp_eight_eq hx
  omega

/-- The block of an allocation, read off its header. -/
def blockOf (mem : ℕ → UInt8) (p : ℕ) : Block := ⟨p - 12, blockSize mem (p - 12)⟩

/-- No computation of `kmalloc` on sizes or addresses leaves the 32 bits: the
    rounding of the request, the threshold of the split when a block is reused,
    the new bump pointer when none is. -/
def NoWrap (h : HeapState) (n : ℕ) : Prop :=
  n + 7 < 2 ^ 32 ∧ ∀ r ∈ findFreeBlockAndRemove (startBump h) (alignUpUintptr n 8),
    if r.1 ≠ 0 then alignUpUintptr n 8 + 28 < 2 ^ 32 ∧ r.1 + 12 + alignUpUintptr n 8 < 2 ^ 32
    else r.2.bumpNext + 7 < 2 ^ 32 ∧
      alignUpUintptr r.2.bumpNext 8 + 12 + alignUpUintptr n 8 < 2 ^ 32

instance (h : HeapState) (n : ℕ) : Decidable (NoWrap h n) := inferInstanceAs (Decidable (_ ∧ _))

/-- The state of the heap: `free` are the blocks on the free list, `live` the
    allocations. -/
structure Inv (h : HeapState) (free : List Block) (live : List (ℕ × ℕ)) : Prop where
  list : FreeList h.mem h.freeListHead free
  layout : Layout h.freeRam h.bumpNext free (live.map fun g => blockOf h.mem g.1)
  low : h.freeRam ≤ h.bumpNext
  bound : h.bumpNext < 2 ^ 32
  top : h.bumpNext = h.freeRam ∨ h.bumpNext ≤ h.freeRamEnd
  served : ∀ g ∈ live, 12 ≤ g.1 ∧ g.2 ≤ blockSize h.mem (g.1 - 12)

/-- The heap grows from `h` to `h'` without touching the live blocks or the
    memory outside of the heap. -/
structure Preserves (h h' : HeapState) (live : List (ℕ × ℕ)) : Prop where
  freeRam : h'.freeRam = h.freeRam
  freeRamEnd : h'.freeRamEnd = h.freeRamEnd
  bumpNext : h.bumpNext ≤ h'.bumpNext
  blocks : ∀ g ∈ live, ∀ x, g.1 - 12 ≤ x → x < (blockOf h.mem g.1).stop → h'.mem x = h.mem x
  outside : ∀ x, x < h.freeRam ∨ h'.bumpNext ≤ x → h'.mem x = h.mem x

/-- What `kmalloc` has done for a request of `n` bytes: it returned `p`, cleared the
    payload, and wrote only to the new block and to free ones. -/
structure Allocated (h : HeapState) (free : List Block) (live : List (ℕ × ℕ)) (n p : ℕ)
    (h' : HeapState) (free' : List Block) : Prop where
  inv : Inv h' free' ((p, n) :: live)
  preserves : Preserves h h' live
  zero : ∀ i < alignUpUintptr n 8, h'.mem (p + i) = 0
  frame : ∀ x, (∀ b ∈ blockOf h'.mem p :: free, x < b.addr ∨ b.stop ≤ x) → h'.mem x = h.mem x
  blocks : Allocates (alignUpUintptr n 8) h.bumpNext free (blockOf h'.mem p) h'.bumpNext free'

/-- What `kfree` has done with the allocation `g`: it wrote only to its block and to
    free ones. -/
structure Freed (h : HeapState) (free : List Block) (live : List (ℕ × ℕ)) (g : ℕ × ℕ)
    (h' : HeapState) (free' : List Block) : Prop where
  inv : Inv h' free' (live.erase g)
  preserves : Preserves h h' (live.erase g)
  bumpNext : h'.bumpNext = h.bumpNext
  frame : ∀ x, (∀ b ∈ blockOf h.mem g.1 :: free, x < b.addr ∨ b.stop ≤ x) → h'.mem x = h.mem x
  blocks : Releases (blockOf h.mem g.1) free free'

section

variable {h h' : HeapState} {free : List Block} {live : List (ℕ × ℕ)} {n : ℕ}

theorem Preserves.blockOf (hp : Preserves h h' live) {g : ℕ × ℕ} (hg : g ∈ live) :
    Heap.blockOf h'.mem g.1 = Heap.blockOf h.mem g.1 := by
  have hhdr : header h'.mem (g.1 - 12) = header h.mem (g.1 - 12) := by
    refine header_congr fun i hi => hp.blocks g hg _ (by omega) ?_
    simp only [Heap.blockOf, Block.stop]
    omega
  have hsize : blockSize h'.mem (g.1 - 12) = blockSize h.mem (g.1 - 12) :=
    congrArg Header.size hhdr
  rw [Heap.blockOf, Heap.blockOf, hsize]

theorem Preserves.map_blockOf (hp : Preserves h h' live) :
    (live.map fun g => Heap.blockOf h'.mem g.1) = live.map fun g => Heap.blockOf h.mem g.1 :=
  List.map_congr_left fun _ hg => hp.blockOf hg

theorem Preserves.served (hp : Preserves h h' live)
    (hs : ∀ g ∈ live, 12 ≤ g.1 ∧ g.2 ≤ blockSize h.mem (g.1 - 12)) :
    ∀ g ∈ live, 12 ≤ g.1 ∧ g.2 ≤ blockSize h'.mem (g.1 - 12) := by
  intro g hg
  have hsize : blockSize h'.mem (g.1 - 12) = blockSize h.mem (g.1 - 12) :=
    congrArg Block.size (hp.blockOf hg)
  rw [hsize]
  exact hs g hg

/-- A change of the memory within free blocks. -/
theorem Within.preserves {bs : List Block} (hw : Within h h' bs)
    (hin : ∀ b ∈ bs, h.freeRam ≤ b.addr ∧ b.stop ≤ h.bumpNext)
    (hdisj : ∀ b ∈ bs, ∀ g ∈ live, b.Disj (blockOf h.mem g.1)) : Preserves h h' live where
  freeRam := hw.freeRam
  freeRamEnd := hw.freeRamEnd
  bumpNext := hw.bumpNext.ge
  blocks g hg x hlo hhi := hw.frame x fun b hb => by
    have hd := hdisj b hb g hg
    have haddr : (Heap.blockOf h.mem g.1).addr = g.1 - 12 := rfl
    simp only [Block.Disj] at hd
    omega
  outside x hx := hw.frame x fun b hb => by
    have := hin b hb
    rw [hw.bumpNext] at hx
    omega

theorem startBump_eq (hlow : h.freeRam ≤ h.bumpNext) : startBump h = h := by
  unfold startBump
  split_ifs with hz
  · have hram : h.freeRam = h.bumpNext := by omega
    obtain ⟨mem, freeRam, freeRamEnd, head, bumpNext⟩ := h
    simp only at hram
    rw [hram]
  · rfl

theorem Inv.startBump (hi : Inv h free live) : startBump h = h := startBump_eq hi.low

/-! ## `kmalloc` -/

/-- A free block serves the request. -/
theorem kmalloc_reuse {pre post : List Block} {b : Block} (hi : Inv h (pre ++ b :: post) live)
    (hn : 0 < n) (hw : NoWrap h n) (hpre : ∀ a ∈ pre, a.size < alignUpUintptr n 8)
    (hb : alignUpUintptr n 8 ≤ b.size) :
    ∃ h', kmalloc h n = some (b.addr + 12, h') ∧
      Allocated h (pre ++ b :: post) live n (b.addr + 12) h'
        (pre ++ (b.rest (alignUpUintptr n 8) ++ post)) := by
  obtain ⟨hround, hrest⟩ := hw
  obtain ⟨hge, -⟩ := alignUp_eight hround
  generalize hwant : alignUpUintptr n 8 = want at *
  have hbmem : b ∈ pre ++ b :: post := by simp
  have hbin := hi.layout.inside b (List.mem_append_left _ hbmem)
  have hbnull := hi.layout.nonnull b hbmem
  have hstop : b.stop = b.addr + 12 + b.size := rfl
  have hbound := hi.bound
  obtain ⟨h1, hfind, hlist1, hsize1, hwithin1⟩ :=
    find_some hi.list hi.layout.toArranged hbound hpre hb
  rw [hi.startBump] at hrest
  replace hrest := hrest _ hfind
  simp only [ne_eq, hbnull, not_false_eq_true, if_true] at hrest
  obtain ⟨h2, hsplit, hlist2, hsize2, hwithin2⟩ :=
    split_spec hlist1 hsize1 hi.layout.toArranged hbound hrest.1
  have hmod : (b.addr + 12) % 2 ^ 32 = b.addr + 12 := Nat.mod_eq_of_lt (by omega)
  -- the payload is cleared
  have hcut := hi.layout.take want
  have hcutstop : b.addr + 12 + want ≤ (b.cut want).stop := by
    simp only [Block.cut, Block.stop]
    split_ifs <;> omega
  have hclear : ∀ x, x < b.addr + 12 ∨ b.addr + 12 + want ≤ x →
      fill h2.mem (b.addr + 12) 0 want x = h2.mem x := fun x hx => fill_of_outside h2.mem 0 hx
  have hwithin3 : Within h2 { h2 with mem := fill h2.mem (b.addr + 12) 0 want }
      (pre ++ b :: post) :=
    ⟨rfl, rfl, rfl, fun x hx => hclear x (by have := hx b hbmem; omega)⟩
  have hwithin := (hwithin1.trans hwithin2).trans hwithin3
  have hram : h2.freeRam = h.freeRam := hwithin.freeRam
  have hend : h2.freeRamEnd = h.freeRamEnd := hwithin.freeRamEnd
  have hnext : h2.bumpNext = h.bumpNext := hwithin.bumpNext
  have hpres : Preserves h { h2 with mem := fill h2.mem (b.addr + 12) 0 want } live :=
    hwithin.preserves (fun c hc => hi.layout.inside c (List.mem_append_left _ hc))
      fun c hc g hg => hi.layout.cross c hc _ (List.mem_map_of_mem hg)
  have hheaders : ∀ c ∈ pre ++ (b.rest want ++ post),
      header (fill h2.mem (b.addr + 12) 0 want) c.addr = header h2.mem c.addr := by
    intro c hc
    refine header_congr fun i hi => hclear _ ?_
    have := hcut.cross c hc (b.cut want) List.mem_cons_self
    have := c.addr_lt_stop
    have haddr : (b.cut want).addr = b.addr := rfl
    simp only [Block.Disj] at *
    omega
  have hhdr : header (fill h2.mem (b.addr + 12) 0 want) b.addr = header h2.mem b.addr :=
    header_congr fun i hi => hclear _ (by omega)
  have hnew : blockOf (fill h2.mem (b.addr + 12) 0 want) (b.addr + 12) = b.cut want := by
    have : blockSize (fill h2.mem (b.addr + 12) 0 want) b.addr = (b.cut want).size :=
      (congrArg Header.size hhdr).trans hsize2
    simp only [blockOf, Nat.add_sub_cancel, this]
    rfl
  refine ⟨{ h2 with mem := fill h2.mem (b.addr + 12) 0 want }, ?_, ?_, hpres, fun i hi => ?_,
    fun x hx => hwithin.frame x fun c hc => hx c (List.mem_cons_of_mem _ hc), ?_⟩
  · simp only [kmalloc, Nat.pos_iff_ne_zero.mp hn, if_false, hi.startBump, hwant, hfind,
      ne_eq, hbnull, not_false_eq_true, if_true, hsplit, Option.map_some, hmod]
  · refine ⟨hlist2.congr hheaders, ?_, ?_, ?_, ?_, fun g hg => ?_⟩
    · rw [List.map_cons, hnew, hpres.map_blockOf]
      simpa only [hram, hnext] using hcut
    · simpa only [hram, hnext] using hi.low
    · simpa only [hnext] using hbound
    · simpa only [hram, hnext, hend] using hi.top
    · obtain rfl | hg := List.mem_cons.mp hg
      · have hsize : blockSize (fill h2.mem (b.addr + 12) 0 want) (b.addr + 12 - 12) =
            (b.cut want).size := congrArg Block.size hnew
        have : want ≤ (b.cut want).size := by
          simp only [Block.cut]
          split_ifs <;> omega
        exact ⟨by omega, hge.trans (this.trans hsize.ge)⟩
      · exact hpres.served hi.served g hg
  · rw [hwant] at hi
    exact fill_of_inside h2.mem 0 (by omega) (by omega)
  · simp only [hwant, hnew, hnext]
    exact .reuse hpre hb

/-- The heap is extended, or the region is used up. -/
theorem kmalloc_bump (hi : Inv h free live) (hn : 0 < n) (hw : NoWrap h n)
    (hfit : ∀ b ∈ free, b.size < alignUpUintptr n 8) :
    (h.freeRamEnd < alignUpUintptr h.bumpNext 8 + 12 + alignUpUintptr n 8 ∧ kmalloc h n = none) ∨
    ∃ h', kmalloc h n = some (alignUpUintptr h.bumpNext 8 + 12, h') ∧
      Allocated h free live n (alignUpUintptr h.bumpNext 8 + 12) h' free := by
  obtain ⟨hround, hrest⟩ := hw
  have hfind := find_none hi.list hi.layout.toArranged hi.bound hfit
  rw [hi.startBump] at hrest
  replace hrest := hrest _ hfind
  simp only [ne_eq, not_true_eq_false, if_false] at hrest
  obtain ⟨hge, -⟩ := alignUp_eight hround
  obtain ⟨hbump, hnew⟩ := hrest
  obtain ⟨hhdr, -⟩ := alignUp_eight hbump
  have hmult := alignUp_eight_eq hbump
  have hcall : kmalloc h n = bumpAlloc h (alignUpUintptr n 8) := by
    simp only [kmalloc, Nat.pos_iff_ne_zero.mp hn, if_false, hi.startBump, hfind, ne_eq,
      not_true_eq_false]
  rw [hcall]
  generalize hwant : alignUpUintptr n 8 = want at *
  generalize hh : alignUpUintptr h.bumpNext 8 = hdr at *
  have hmod1 : (hdr + 12) % 2 ^ 32 = hdr + 12 := Nat.mod_eq_of_lt (by omega)
  have hmod2 : (hdr + 12 + want) % 2 ^ 32 = hdr + 12 + want := Nat.mod_eq_of_lt hnew
  by_cases hroom : hdr + 12 + want > h.freeRamEnd
  · refine .inl ⟨hroom, ?_⟩
    simp only [bumpAlloc, hh, hmod1, hmod2, if_pos hroom]
  · right
    have he := edit_all h.mem hdr want 0 false (by omega) (by norm_num)
    generalize hm : setNext (setFree (setSize h.mem hdr want) hdr false) hdr 0 = mem at he
    have hframe : ∀ x, x < hdr ∨ hdr + 12 + want ≤ x → fill mem (hdr + 12) 0 want x = h.mem x :=
      fun x hx => (fill_of_outside mem 0 (by omega)).trans (he.frame x (by omega))
    have hpres : Preserves h ⟨fill mem (hdr + 12) 0 want, h.freeRam, h.freeRamEnd,
        h.freeListHead, hdr + 12 + want⟩ live := by
      refine ⟨rfl, rfl, by simp only; omega, fun g hg x hlo hhi => hframe x ?_,
        fun x hx => hframe x ?_⟩
      · have := (hi.layout.inside (blockOf h.mem g.1)
          (List.mem_append_right _ (List.mem_map_of_mem hg))).2
        omega
      · have := hi.low
        simp only at hx
        omega
    have hsize : blockSize (fill mem (hdr + 12) 0 want) hdr = want := by
      have hsame : header (fill mem (hdr + 12) 0 want) hdr = header mem hdr :=
        header_congr fun i hi => fill_of_outside mem 0 (by omega)
      exact (congrArg Header.size hsame).trans (congrArg Header.size he.header)
    have hblock : blockOf (fill mem (hdr + 12) 0 want) (hdr + 12) = ⟨hdr, want⟩ := by
      simp only [blockOf, Nat.add_sub_cancel, hsize]
    refine ⟨_, ?_, ⟨?_, ?_, ?_, ?_, ?_, fun g hg => ?_⟩, hpres, fun i hi => ?_, fun x hx => ?_, ?_⟩
    · simp only [bumpAlloc, hh, hmod1, hmod2, if_neg hroom, hm]
    · refine hi.list.congr fun c hc => header_congr fun i hi' => hframe _ ?_
      have := (hi.layout.inside c (List.mem_append_left _ hc)).2
      have := c.addr_lt_stop
      omega
    · rw [List.map_cons, hblock, hpres.map_blockOf]
      exact hi.layout.extend (b := ⟨hdr, want⟩) hi.low hhdr
    · have := hi.low
      simp only
      omega
    · exact hnew
    · exact .inr (not_lt.mp hroom)
    · obtain rfl | hg := List.mem_cons.mp hg
      · rw [Nat.add_sub_cancel, hsize]
        exact ⟨by omega, hge⟩
      · exact hpres.served hi.served g hg
    · exact fill_of_inside mem 0 (by omega) (by omega)
    · have := hx _ List.mem_cons_self
      simp only [hblock, Block.stop] at this
      exact hframe x this
    · rw [hblock, hwant]
      exact .extend hfit hmult

/-- `kmalloc` returns a fresh cleared block and keeps the invariant, unless no
    free block fits and the region is used up. -/
theorem kmalloc_spec (hi : Inv h free live) (hn : 0 < n) (hw : NoWrap h n) :
    (h.freeRamEnd < alignUpUintptr h.bumpNext 8 + 12 + alignUpUintptr n 8 ∧ kmalloc h n = none) ∨
    ∃ p h' free', kmalloc h n = some (p, h') ∧ Allocated h free live n p h' free' := by
  cases hf : free.find? fun b => alignUpUintptr n 8 ≤ b.size with
  | none =>
    have hfit : ∀ b ∈ free, b.size < alignUpUintptr n 8 := by simpa using hf
    obtain hnone | ⟨h', hs⟩ := kmalloc_bump hi hn hw hfit
    · exact .inl hnone
    · exact .inr ⟨_, h', free, hs⟩
  | some b =>
    obtain ⟨hb, pre, post, rfl, hpre⟩ := List.find?_eq_some_iff_append.mp hf
    obtain ⟨h', hs⟩ := kmalloc_reuse hi hn hw (fun a ha => by simpa using hpre a ha) (by simpa using hb)
    exact .inr ⟨_, h', _, hs⟩

theorem kmalloc_allocated {p : ℕ} (hi : Inv h free live) (hn : 0 < n) (hw : NoWrap h n)
    (hcall : kmalloc h n = some (p, h')) : ∃ free', Allocated h free live n p h' free' := by
  obtain ⟨-, hnone⟩ | ⟨q, h2, free', hcall', hdone⟩ := kmalloc_spec hi hn hw
  · rw [hnone] at hcall
    cases hcall
  · rw [hcall'] at hcall
    cases hcall
    exact ⟨free', hdone⟩

/-! ## `kfree` -/

/-- The part of `kfree` behind the range test. -/
theorem kfree_eq {p : ℕ} (hp : 12 ≤ p) (hp' : p < 2 ^ 32) (hlo : h.freeRam ≤ p - 12)
    (hhi : p - 12 < h.freeRamEnd) :
    kfree h p = (linkSorted { h with
        mem := setNext (setFree h.mem (p - 12) true) (p - 12) 0 } (p - 12)).bind fun (prev, h1) =>
      (coalescePrev h1 prev (p - 12)).bind fun (block, h2) => some (coalesceNext h2 block) := by
  have hblock : (p + 2 ^ 32 - 12) % 2 ^ 32 = p - 12 := by omega
  rw [kfree, if_neg (by omega)]
  simp only [hblock]
  rw [if_neg (by omega)]
  rfl

/-- A block that is not at address 0 goes back to the free list. -/
theorem kfree_release {b : Block} {pre post rest : List Block}
    (hl : FreeList h.mem h.freeListHead (pre ++ post))
    (hla : Layout h.freeRam h.bumpNext (pre ++ post) (b :: rest)) (hbound : h.bumpNext < 2 ^ 32)
    (hsize : blockSize h.mem b.addr = b.size) (hend : h.bumpNext ≤ h.freeRamEnd)
    (hpre : ∀ a ∈ pre, a.addr < b.addr) (hpost : ∀ c ∈ post, b.addr ≤ c.addr)
    (hb : b.addr ≠ 0) :
    ∃ h', kfree h (b.addr + 12) = some h' ∧
      FreeList h'.mem h'.freeListHead (release pre b post) ∧ Within h h' (pre ++ b :: post) := by
  have hin := hla.inside b (by simp)
  have hstop := b.addr_lt_stop
  have hbmem : b ∈ pre ++ b :: post := by simp
  have harr := hla.toArranged.insert hpre hpost hb
  rw [kfree_eq (by omega) (by omega) (by omega) (by omega), Nat.add_sub_cancel]
  have he := (edit_setFree h.mem b.addr true).trans
    (edit_setNext (setFree h.mem b.addr true) b.addr (v := 0) (by norm_num))
  rw [(edit_setFree h.mem b.addr true).header, header, hsize] at he
  generalize setNext (setFree h.mem b.addr true) b.addr 0 = mem at he
  have hlist := hl.edit_outside he (headers_of_ordered harr.ordered)
  obtain ⟨h1, hlink, hlist1, hwithin1⟩ := link_spec (h := { h with mem := mem }) hlist
    ⟨congrArg Header.size he.header, congrArg Header.free he.header⟩ harr hbound
  obtain ⟨h2, hprev, hlist2, hwithin2⟩ := coalescePrev_spec hlist1 harr hbound
  obtain ⟨harr2, -, -⟩ := joinLeft_layout (b := b) rfl harr hla.gaps
  have hlist3 := coalesceNext_spec hlist2 harr2 hbound
  refine ⟨coalesceNext h2 (joinLeft pre b).2.addr, ?_, hlist3, ?_⟩
  · simp only [hlink, Option.bind_some, hprev]
  · have hwithin0 : Within h { h with mem := mem } (pre ++ b :: post) :=
      he.within hbmem le_rfl b.addr_lt_stop
    have hfront : Within { h with mem := mem } h1 (pre ++ b :: post) := hwithin1.mono fun c hc => by
      simp only [List.mem_append, List.mem_cons, List.not_mem_nil, or_false] at hc ⊢
      exact hc.imp_right .inl
    refine ((hwithin0.trans hfront).trans hwithin2).trans
      ((coalesceNext_within h2 _).cover fun c hc => ?_)
    -- the joined block starts where one of the old ones did
    rw [List.mem_singleton.mp hc]
    obtain ⟨d, hd, haddr⟩ : ∃ d ∈ pre ++ b :: post, d.addr = (joinLeft pre b).2.addr := by
      unfold joinLeft
      split
      · rename_i p hp
        split_ifs
        · exact ⟨p, by simp [List.mem_of_mem_getLast? hp], rfl⟩
        · exact ⟨b, hbmem, rfl⟩
      · exact ⟨b, hbmem, rfl⟩
    exact ⟨d, hd, haddr.le, haddr ▸ d.addr_lt_stop⟩

/-- A block at address 0 cannot be linked: its pointer is the null pointer, so
    the list ends at its head and the free blocks are lost. -/
theorem kfree_null (hram : h.freeRam = 0) (hend : 0 < h.freeRamEnd) :
    ∃ h', kfree h 12 = some h' ∧ FreeList h'.mem h'.freeListHead [] ∧ Within h h' [⟨0, 0⟩] := by
  rw [kfree_eq le_rfl (by norm_num) (by omega) hend, Nat.sub_self]
  have he := (edit_setFree h.mem 0 true).trans
    (edit_setNext (setFree h.mem 0 true) 0 (v := 0) (by norm_num))
  generalize setNext (setFree h.mem 0 true) 0 0 = mem at he
  -- every address stops the search
  have hseek : seek 0 (blockNext mem) (fun cur => decide (0 ≤ cur)) listFuel 0 h.freeListHead =
      some (0, h.freeListHead) := by
    rw [listFuel, show 2 ^ 32 = (2 ^ 32 - 1) + 1 by norm_num, seek, if_pos (by simp)]
  have hlink : linkSorted { h with mem := mem } 0 = some (0, { h with
      mem := setNext mem 0 h.freeListHead, freeListHead := 0 }) := by
    rw [linkSorted, hseek]
    rfl
  simp only [hlink, Option.bind_some, coalescePrev, if_true]
  refine ⟨_, rfl, ⟨?_, fun b hb => by cases hb⟩, ?_⟩
  · rw [coalesceNext_head]
    rfl
  · have hframe : ∀ x, 12 ≤ x → setNext mem 0 h.freeListHead x = h.mem x := fun x hx =>
      (storeWord_of_outside mem _ (by omega)).trans (he.frame x (by omega))
    have hwithin : Within h { h with mem := setNext mem 0 h.freeListHead, freeListHead := 0 }
        [⟨0, 0⟩] :=
      ⟨rfl, rfl, rfl, fun x hx => hframe x (by
        have := hx ⟨0, 0⟩ (List.mem_singleton_self _)
        simp only [Block.stop] at this
        omega)⟩
    exact hwithin.trans (coalesceNext_within _ 0)

/-- The layout with a live allocation in front. -/
theorem Inv.layout_cons {g : ℕ × ℕ} (hi : Inv h free live) (hg : g ∈ live) :
    Layout h.freeRam h.bumpNext free
      (blockOf h.mem g.1 :: (live.erase g).map fun g => blockOf h.mem g.1) :=
  hi.layout.perm ((List.perm_cons_erase hg).map _)

/-- It is enough to know the new list and what has been written. -/
theorem Freed.of_layout {g : ℕ × ℕ} {free' bs : List Block} (hi : Inv h free live) (hg : g ∈ live)
    (hlist : FreeList h'.mem h'.freeListHead free')
    (hlay : Layout h.freeRam h.bumpNext free' ((live.erase g).map fun g => blockOf h.mem g.1))
    (hwritten : Within h h' bs)
    (hcover : ∀ b ∈ bs, ∃ d ∈ blockOf h.mem g.1 :: free, d.addr ≤ b.addr ∧ b.stop ≤ d.stop)
    (hblocks : Releases (blockOf h.mem g.1) free free') : Freed h free live g h' free' := by
  have hla := hi.layout_cons hg
  have hwithin := hwritten.cover hcover
  have hrest : ∀ g' ∈ live.erase g, (blockOf h.mem g.1).Disj (blockOf h.mem g'.1) :=
    fun g' hg' => (List.pairwise_cons.mp hla.pairs).1 _ (List.mem_map_of_mem hg')
  have hpres : Preserves h h' (live.erase g) := by
    refine hwithin.preserves (fun b hb => hla.inside b ?_) fun b hb g' hg' => ?_
    · simp only [List.mem_append, List.mem_cons] at hb ⊢
      exact hb.elim (fun hb => .inr (.inl hb)) .inl
    · obtain rfl | hb := List.mem_cons.mp hb
      · exact hrest g' hg'
      · exact hla.cross b hb _ (List.mem_cons_of_mem _ (List.mem_map_of_mem hg'))
  refine ⟨⟨hlist, ?_, ?_, ?_, ?_, ?_⟩, hpres, hwithin.bumpNext, hwithin.frame, hblocks⟩
  · rw [hpres.map_blockOf, hwithin.freeRam, hwithin.bumpNext]
    exact hlay
  · rw [hwithin.freeRam, hwithin.bumpNext]
    exact hi.low
  · rw [hwithin.bumpNext]
    exact hi.bound
  · rw [hwithin.freeRam, hwithin.bumpNext, hwithin.freeRamEnd]
    exact hi.top
  · exact hpres.served fun g' hg' => hi.served g' (List.mem_of_mem_erase hg')

/-- `kfree` of a live allocation returns and keeps the invariant. -/
theorem kfree_spec {g : ℕ × ℕ} (hi : Inv h free live) (hg : g ∈ live) :
    ∃ h' free', kfree h g.1 = some h' ∧ Freed h free live g h' free' := by
  have hla := hi.layout_cons hg
  have hp := (hi.served g hg).1
  have hin := hla.inside (blockOf h.mem g.1) (by simp)
  have hstop := (blockOf h.mem g.1).addr_lt_stop
  have haddr : (blockOf h.mem g.1).addr = g.1 - 12 := rfl
  have hsize : blockSize h.mem (blockOf h.mem g.1).addr = (blockOf h.mem g.1).size := rfl
  have hend : h.bumpNext ≤ h.freeRamEnd := hi.top.resolve_left (by omega)
  by_cases hzero : (blockOf h.mem g.1).addr = 0
  · have hg12 : g.1 = 12 := by omega
    obtain ⟨h', hcall, hlist, hwithin⟩ := kfree_null (h := h) (by omega) (by omega)
    refine ⟨h', [], by rw [hg12, hcall], .of_layout hi hg hlist hla.forget.forget_free hwithin
      (fun b hb => ⟨_, List.mem_cons_self, ?_⟩) (.lost hzero)⟩
    rw [List.mem_singleton.mp hb]
    simp only [Block.stop] at *
    omega
  · obtain ⟨pre, post, rfl, hpre, hpost⟩ := ordered_split hi.layout.ordered (blockOf h.mem g.1).addr
    obtain ⟨h', hcall, hlist, hwithin⟩ := kfree_release hi.list hla hi.bound hsize hend hpre hpost
      hzero
    refine ⟨h', _, ?_, .of_layout hi hg hlist (hla.release hpre hpost hzero) hwithin
      (fun b hb => ⟨b, ?_, le_rfl, le_rfl⟩) (.release hpre hpost hzero)⟩
    · rw [haddr, Nat.sub_add_cancel hp] at hcall
      exact hcall
    · simp only [List.mem_append, List.mem_cons] at hb ⊢
      exact or_left_comm.mp hb

theorem kfree_freed {g : ℕ × ℕ} (hi : Inv h free live) (hg : g ∈ live)
    (hcall : kfree h g.1 = some h') : ∃ free', Freed h free live g h' free' := by
  obtain ⟨h2, free', hcall', hdone⟩ := kfree_spec hi hg
  rw [hcall'] at hcall
  cases hcall
  exact ⟨free', hdone⟩

/-! ## Runs -/

/-- A heap and its live allocations. -/
structure Arena where
  heap : HeapState
  live : List (ℕ × ℕ)

/-- What the clients of the heap do. -/
inductive Op
  | malloc (n : ℕ)
  | free (p : ℕ)
  | write (a : ℕ) (v : UInt8)

/-- One operation. Only live pointers can be freed. -/
def Arena.step (s : Arena) : Op → Option Arena
  | .malloc n => (kmalloc s.heap n).map fun (p, h) => ⟨h, (p, n) :: s.live⟩
  | .free p =>
    (s.live.find? fun g => g.1 == p).bind fun g =>
      (kfree s.heap p).map fun h => ⟨h, s.live.erase g⟩
  | .write a v => some { s with heap := { s.heap with mem := Function.update s.heap.mem a v } }

/-- Requests are positive and nothing wraps; clients write to the payloads of
    their live blocks, or to memory that is not in the heap. -/
def Permitted (s : Arena) : Op → Prop
  | .malloc n => 0 < n ∧ NoWrap s.heap n
  | .free _ => True
  | .write a _ => (∃ g ∈ s.live, g.1 ≤ a ∧ a < (blockOf s.heap.mem g.1).stop) ∨
      a < s.heap.freeRam ∨ s.heap.bumpNext ≤ a

/-- The heap after `init_alloc` has chosen its region. -/
structure Fresh (h : HeapState) : Prop where
  head : h.freeListHead = 0
  bump : h.bumpNext = h.freeRam
  low : h.freeRam < 2 ^ 32

theorem Fresh.inv (h0 : Fresh h) : Inv h [] [] where
  list := ⟨h0.head, fun b hb => by cases hb⟩
  layout := .empty _ _
  low := h0.bump.ge
  bound := h0.bump ▸ h0.low
  top := .inl h0.bump
  served g hg := by cases hg

/-- Memory that a client may write: payloads of live blocks, and what is not in
    the heap. -/
def Writable (h : HeapState) (live : List (ℕ × ℕ)) (a : ℕ) : Prop :=
  (∃ g ∈ live, g.1 ≤ a ∧ a < (blockOf h.mem g.1).stop) ∨ a < h.freeRam ∨ h.bumpNext ≤ a

/-- No header lies in memory that a client may write. -/
theorem Inv.writable_apart (hi : Inv h free live) {a : ℕ} (ha : Writable h live a) :
    ∀ b ∈ free ++ live.map (fun g => blockOf h.mem g.1), a < b.addr ∨ b.addr + 12 ≤ a := by
  intro b hb
  have hin := hi.layout.inside b hb
  have hstop := b.addr_lt_stop
  obtain ⟨g, hg, hlo, hhi⟩ | ha := ha
  · have hmem : blockOf h.mem g.1 ∈ live.map fun g => blockOf h.mem g.1 :=
      List.mem_map_of_mem hg
    have haddr : (blockOf h.mem g.1).addr = g.1 - 12 := rfl
    have hp := (hi.served g hg).1
    by_cases hsame : b = blockOf h.mem g.1
    · rw [hsame, haddr]
      omega
    · have hdisj : b.Disj (blockOf h.mem g.1) := by
        obtain hb | hb := List.mem_append.mp hb
        · exact hi.layout.cross b hb _ hmem
        · exact hi.layout.pairs.forall hb hmem hsame
      simp only [Block.Disj] at hdisj
      omega
  · omega

theorem Inv.write_header (hi : Inv h free live) {mem : ℕ → UInt8}
    (hm : ∀ a, mem a ≠ h.mem a → Writable h live a) :
    ∀ b ∈ free ++ live.map (fun g => blockOf h.mem g.1),
      header mem b.addr = header h.mem b.addr := by
  intro b hb
  refine header_congr fun i hi' => ?_
  by_contra hne
  have := hi.writable_apart (hm _ hne) b hb
  omega

theorem Inv.write_blockOf (hi : Inv h free live) {mem : ℕ → UInt8}
    (hm : ∀ a, mem a ≠ h.mem a → Writable h live a) {g : ℕ × ℕ} (hg : g ∈ live) :
    blockOf mem g.1 = blockOf h.mem g.1 := by
  have hsize : blockSize mem (g.1 - 12) = blockSize h.mem (g.1 - 12) :=
    congrArg Header.size (hi.write_header hm (blockOf h.mem g.1)
      (List.mem_append_right _ (List.mem_map_of_mem hg)))
  rw [blockOf, blockOf, hsize]

/-- Writes that touch no header keep the invariant. -/
theorem Inv.write (hi : Inv h free live) {mem : ℕ → UInt8}
    (hm : ∀ a, mem a ≠ h.mem a → Writable h live a) : Inv { h with mem := mem } free live := by
  refine ⟨hi.list.congr fun b hb => hi.write_header hm b (List.mem_append_left _ hb), ?_, hi.low,
    hi.bound, hi.top, fun g hg => ?_⟩
  · have hmap : (live.map fun g => blockOf mem g.1) = live.map fun g => blockOf h.mem g.1 :=
      List.map_congr_left fun g hg => hi.write_blockOf hm hg
    rw [hmap]
    exact hi.layout
  · have hsize : blockSize mem (g.1 - 12) = blockSize h.mem (g.1 - 12) :=
      congrArg Block.size (hi.write_blockOf hm hg)
    rw [hsize]
    exact hi.served g hg

/-- A permitted write of one byte. -/
theorem Permitted.writable {s : Arena} {a : ℕ} {v : UInt8} (hp : Permitted s (.write a v)) :
    ∀ x, Function.update s.heap.mem a v x ≠ s.heap.mem x → Writable s.heap s.live x := by
  intro x hne
  obtain rfl : x = a := by
    by_contra hxa
    exact hne (Function.update_of_ne hxa v s.heap.mem)
  exact hp

theorem Inv.step {s s' : Arena} {op : Op} (hi : Inv s.heap free s.live) (hp : Permitted s op)
    (hs : s.step op = some s') : ∃ free', Inv s'.heap free' s'.live := by
  cases op with
  | malloc n =>
    obtain ⟨⟨p, h'⟩, hcall, rfl⟩ := Option.map_eq_some_iff.mp hs
    obtain ⟨free', hdone⟩ := kmalloc_allocated hi hp.1 hp.2 hcall
    exact ⟨free', hdone.inv⟩
  | free p =>
    obtain ⟨g, hfind, hs⟩ := Option.bind_eq_some_iff.mp hs
    obtain ⟨h', hcall, rfl⟩ := Option.map_eq_some_iff.mp hs
    obtain rfl : g.1 = p := by simpa using List.find?_some hfind
    obtain ⟨free', hdone⟩ := kfree_freed hi (List.mem_of_find?_eq_some hfind) hcall
    exact ⟨free', hdone.inv⟩
  | write a v =>
    cases hs
    exact ⟨free, hi.write hp.writable⟩

/-- What the heap promises: `nodes` is the free list, `live` the allocations. -/
structure WellFormed (h : HeapState) (live : List (ℕ × ℕ)) (nodes : List ℕ) : Prop where
  chain : Links (blockNext h.mem) h.freeListHead nodes 0
  ascending : nodes.Pairwise (· < ·)
  marked : ∀ a ∈ nodes, a ≠ 0 ∧ blockFree h.mem a = true
  gaps : ∀ a ∈ nodes, ∀ c ∈ nodes, a + 12 + blockSize h.mem a ≠ c
  inside : ∀ b ∈ (nodes.map fun a => (⟨a, blockSize h.mem a⟩ : Block)) ++
    live.map (fun g => blockOf h.mem g.1), h.freeRam ≤ b.addr ∧ b.stop ≤ h.bumpNext
  disjoint : ((nodes.map fun a => (⟨a, blockSize h.mem a⟩ : Block)) ++
    live.map (fun g => blockOf h.mem g.1)).Pairwise Block.Disj
  served : ∀ g ∈ live, 12 ≤ g.1 ∧ g.2 ≤ blockSize h.mem (g.1 - 12)

/-- The calls return: `kfree` of a live pointer does, and `kmalloc` unless the
    region is used up. -/
structure Returns (s : Arena) : Prop where
  kfree : ∀ g ∈ s.live, (Heap.kfree s.heap g.1).isSome
  kmalloc : ∀ n, 0 < n → NoWrap s.heap n → Heap.kmalloc s.heap n = none →
    s.heap.freeRamEnd < alignUpUintptr s.heap.bumpNext 8 + 12 + alignUpUintptr n 8

theorem Inv.wellFormed (hi : Inv h free live) : WellFormed h live (free.map Block.addr) := by
  have hnodes := hi.list.nodes_eq
  have hlt : ∀ a c : Block, a.stop ≤ c.addr → a.addr < c.addr := fun a c hac => by
    have := a.addr_lt_stop
    omega
  refine ⟨hi.list.links, ?_, ?_, ?_, ?_, ?_, hi.served⟩
  · rw [List.pairwise_map]
    exact hi.layout.ordered.imp fun {a c} => hlt a c
  · intro x hx
    obtain ⟨b, hb, rfl⟩ := List.mem_map.mp hx
    exact ⟨hi.layout.nonnull b hb, (hi.list.headers b hb).2⟩
  · intro x hx y hy
    obtain ⟨a, ha, rfl⟩ := List.mem_map.mp hx
    obtain ⟨c, hc, rfl⟩ := List.mem_map.mp hy
    rw [(hi.list.headers a ha).1]
    exact hi.layout.stop_ne ha hc
  · rw [hnodes]
    exact hi.layout.inside
  · rw [hnodes, List.pairwise_append]
    exact ⟨hi.layout.ordered.imp fun hac => .inl hac, hi.layout.pairs, hi.layout.cross⟩

theorem Inv.returns {s : Arena} (hi : Inv s.heap free s.live) : Returns s where
  kfree g hg := by
    obtain ⟨h', -, hcall, -⟩ := kfree_spec hi hg
    rw [hcall]
    rfl
  kmalloc n hn hw hnone := by
    obtain ⟨hfull, -⟩ | ⟨p, h', -, hcall, -⟩ := kmalloc_spec hi hn hw
    · exact hfull
    · rw [hnone] at hcall
      cases hcall

theorem Fresh.reachable (h0 : Fresh h) {s : Arena}
    (hr : Reachable (restrict (Steps Arena.step) Permitted) ⟨h, []⟩ s) :
    ∃ free, Inv s.heap free s.live := by
  refine hr.invariant (P := fun s => ∃ free, Inv s.heap free s.live) ⟨[], h0.inv⟩ ?_
  rintro u op v ⟨free, hi⟩ ⟨hp, hs⟩
  exact hi.step hp hs

/-- For every region, every sequence of allocations, frees of live pointers and
    writes by the clients in which nothing wraps: the free list and the live
    blocks are well formed, and the calls return. -/
theorem heap_invariant (h0 : Fresh h) {s : Arena}
    (hr : Reachable (restrict (Steps Arena.step) Permitted) ⟨h, []⟩ s) :
    (∃ nodes, WellFormed s.heap s.live nodes) ∧ Returns s := by
  obtain ⟨free, hi⟩ := h0.reachable hr
  exact ⟨⟨_, hi.wellFormed⟩, hi.returns⟩

end

instance : ∀ (s : Arena) (op : Op), Decidable (Permitted s op)
  | s, .malloc n => inferInstanceAs (Decidable (0 < n ∧ NoWrap s.heap n))
  | _, .free _ => isTrue trivial
  | s, .write a _ => inferInstanceAs (Decidable
      ((∃ g ∈ s.live, g.1 ≤ a ∧ a < (blockOf s.heap.mem g.1).stop) ∨
        a < s.heap.freeRam ∨ s.heap.bumpNext ≤ a))

/-- A heap of 4 KiB at address 4096, in memory full of ones. -/
def smallHeap : HeapState := ⟨fun _ => 255, 4096, 8192, 0, 4096⟩

/-- Two allocations, a write, and frees and allocations that split and join
    blocks. -/
def heapTrace : List Op :=
  [.malloc 100, .malloc 24, .write 4108 7, .free 4108, .malloc 30, .malloc 8, .free 4152, .free 4108]

theorem heap_invariant_split_and_join :
    ∃ s, Reachable (restrict (Steps Arena.step) Permitted) ⟨smallHeap, []⟩ s ∧
      (∃ nodes, WellFormed s.heap s.live nodes) ∧ Returns s ∧ s.live = [(4228, 24)] ∧
      s.heap.freeListHead = 4096 ∧ blockSize s.heap.mem 4096 = 104 := by
  obtain ⟨s, hrun, hval⟩ : ∃ s,
      Run (restrict (Steps Arena.step) Permitted) ⟨smallHeap, []⟩ heapTrace s ∧
      s.live = [(4228, 24)] ∧ s.heap.freeListHead = 4096 ∧ blockSize s.heap.mem 4096 = 104 :=
    exists_run_restrict (by decide +kernel)
  obtain ⟨hform, hret⟩ := heap_invariant ⟨rfl, rfl, by decide⟩ ⟨_, hrun⟩
  exact ⟨s, ⟨_, hrun⟩, hform, hret, hval⟩

end Mboot.Heap
