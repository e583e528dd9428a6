import Mboot.Heap.Contents

/-!
# When everything has been freed

Headers are aligned to 8 bytes, a header has 12 bytes and sizes are multiples of
8, so `bump_next` is never a multiple of 8 once the heap has been extended: four
bytes stay unused in front of the next header, and blocks from two extensions of
the heap never touch. Within one extension the blocks tile it, and free
neighbours are joined.

* `Tiled`: the blocks of the heap fill the parts by which it has been extended.
* `full_coalescing_iff`: with all blocks freed, the free list is one block exactly
  when the heap was extended once (and not at address 0).
-/

namespace Mboot.Heap

open Common

/-! ## The bytes of a list of blocks -/

/-- The byte at `x` belongs to one of the blocks. -/
def Covered (bs : List Block) (x : ℕ) : Prop := ∃ b ∈ bs, b.addr ≤ x ∧ x < b.stop

section

variable {bs cs free live parts pre post : List Block} {a b : Block} {x want : ℕ}

@[simp]
theorem covered_nil : ¬Covered [] x := by
  rintro ⟨b, hb, -⟩
  cases hb

@[simp]
theorem covered_cons : Covered (b :: bs) x ↔ (b.addr ≤ x ∧ x < b.stop) ∨ Covered bs x := by
  simp only [Covered, List.mem_cons, exists_eq_or_imp]

@[simp]
theorem covered_append : Covered (bs ++ cs) x ↔ Covered bs x ∨ Covered cs x := by
  simp only [Covered, List.mem_append, or_and_right, exists_or]

theorem covered_perm (hp : bs.Perm cs) : Covered bs x ↔ Covered cs x := by
  simp only [Covered, hp.mem_iff]

/-- A block that is cut keeps its bytes. -/
theorem covered_cut :
    Covered (b.rest want) x ∨ ((b.cut want).addr ≤ x ∧ x < (b.cut want).stop) ↔
      b.addr ≤ x ∧ x < b.stop := by
  by_cases hs : b.size ≤ want + 28
  · simp [Block.rest, Block.cut, Block.stop, hs]
  · simp only [Block.rest, if_neg hs, covered_cons, covered_nil, or_false, Block.cut, Block.stop]
    omega

theorem covered_join (h : a.stop = b.addr) :
    ((a.join b).addr ≤ x ∧ x < (a.join b).stop) ↔
      (a.addr ≤ x ∧ x < a.stop) ∨ (b.addr ≤ x ∧ x < b.stop) := by
  have hstop := Block.join_stop h
  have haddr : (a.join b).addr = a.addr := rfl
  have := a.addr_lt_stop
  have := b.addr_lt_stop
  omega

theorem covered_joinLeft :
    Covered (joinLeft pre b).1 x ∨
        ((joinLeft pre b).2.addr ≤ x ∧ x < (joinLeft pre b).2.stop) ↔
      Covered pre x ∨ (b.addr ≤ x ∧ x < b.stop) := by
  obtain rfl | ⟨front, p, rfl⟩ := List.eq_nil_or_concat pre
  · rfl
  · simp only [List.concat_eq_append, joinLeft, List.getLast?_append, List.getLast?_singleton,
      Option.some_or, List.dropLast_concat]
    split_ifs with htouch
    · simp only [covered_join htouch, covered_append, covered_cons, covered_nil, or_false, or_assoc]
    · rfl

theorem covered_joinRight :
    Covered (joinRight b post) x ↔ (b.addr ≤ x ∧ x < b.stop) ∨ Covered post x := by
  cases post with
  | nil => simp [joinRight]
  | cons c post =>
    rw [joinRight]
    split_ifs with htouch
    · simp only [covered_cons, covered_join htouch, or_assoc]
    · simp only [covered_cons]

theorem covered_release :
    Covered (release pre b post) x ↔ Covered (pre ++ b :: post) x := by
  rw [release, covered_append, covered_joinRight, ← or_assoc, covered_joinLeft, covered_append,
    covered_cons, or_assoc]

end

/-! ## The parts of the heap -/

/-- The heap has grown from `lo` to `hi` by `parts`, the last one first: the blocks
    fill the parts, and no two parts touch. -/
structure Tiled (lo hi : ℕ) (parts free live : List Block) : Prop where
  cover : ∀ x, Covered (free ++ live) x ↔ Covered parts x
  apart : parts.Pairwise fun a b => b.stop < a.addr
  shape : ∀ a ∈ parts, a.addr % 8 = 0 ∧ a.size % 8 = 0
  top : hi = (parts.head?.map Block.stop).getD lo
  first : ∀ a ∈ parts.getLast?, a.addr = (lo + 7) / 8 * 8

section

variable {lo hi hi' want : ℕ} {parts free free' live live' : List Block} {a b : Block}

theorem Tiled.empty (lo : ℕ) : Tiled lo lo [] [] [] :=
  ⟨fun _ => Iff.rfl, .nil, fun _ ha => (by cases ha), rfl, fun _ ha => (by cases ha)⟩

theorem Tiled.recover (ht : Tiled lo hi parts free live)
    (hc : ∀ x, Covered (free' ++ live') x ↔ Covered (free ++ live) x) :
    Tiled lo hi parts free' live' :=
  ⟨fun x => (hc x).trans (ht.cover x), ht.apart, ht.shape, ht.top, ht.first⟩

/-- An extension starts a part of its own. -/
theorem Tiled.extend (ht : Tiled lo hi parts free live) (hw : want % 8 = 0) {hdr : ℕ}
    (hhdr : hdr = (hi + 7) / 8 * 8) :
    Tiled lo (hdr + 12 + want) (⟨hdr, want⟩ :: parts) free (⟨hdr, want⟩ :: live) := by
  refine ⟨fun x => ?_, List.pairwise_cons.mpr ⟨fun b hb => ?_, ht.apart⟩, fun a ha => ?_, rfl,
    fun a ha => ?_⟩
  · rw [covered_append, covered_cons, covered_cons, ← ht.cover x, covered_append]
    tauto
  · -- the part before ends four bytes after a multiple of 8
    cases parts with
    | nil => cases hb
    | cons c rest =>
      have htop : hi = c.stop := ht.top
      obtain ⟨haddr, hsize⟩ := ht.shape c List.mem_cons_self
      have hc : c.stop < hdr := by
        simp only [Block.stop] at htop ⊢
        omega
      obtain rfl | hb := List.mem_cons.mp hb
      · exact hc
      · have := (List.pairwise_cons.mp ht.apart).1 b hb
        have := c.addr_lt_stop
        exact show b.stop < hdr by omega
  · obtain rfl | ha := List.mem_cons.mp ha
    · exact ⟨by simp only [hhdr]; omega, hw⟩
    · exact ht.shape a ha
  · cases parts with
    | nil =>
      cases ha
      have htop : hi = lo := ht.top
      rw [← htop]
      exact hhdr
    | cons c rest =>
      rw [List.getLast?_cons_cons] at ha
      exact ht.first a ha

theorem Tiled.release (ht : Tiled lo hi parts free live) (hp : live.Perm (b :: live'))
    (hr : Releases b free free') (hb : b.addr ≠ 0) : Tiled lo hi parts free' live' := by
  cases hr with
  | lost hzero => exact absurd hzero hb
  | @release pre post =>
    refine ht.recover fun x => ?_
    simp only [covered_append, covered_release, covered_perm hp, covered_cons]
    tauto

theorem Tiled.disjoint (ht : Tiled lo hi parts free live) (ha : a ∈ parts) (hb : b ∈ parts)
    (hne : a ≠ b) : a.stop < b.addr ∨ b.stop < a.addr := by
  have : Std.Symm fun a b : Block => a.stop < b.addr ∨ b.stop < a.addr := ⟨fun _ _ => Or.symm⟩
  exact (ht.apart.imp (S := fun a b : Block => a.stop < b.addr ∨ b.stop < a.addr)
    fun hab => .inr hab).forall ha hb hne

/-- A block lies in one part. -/
theorem Tiled.inside (ht : Tiled lo hi parts free live) (hb : b ∈ free ++ live) :
    ∃ a ∈ parts, a.addr ≤ b.addr ∧ b.stop ≤ a.stop := by
  have hlt := b.addr_lt_stop
  obtain ⟨a, ha, hlo, hhi⟩ := (ht.cover b.addr).mp ⟨b, hb, le_rfl, by omega⟩
  refine ⟨a, ha, hlo, ?_⟩
  by_contra hout
  -- the byte behind the part belongs to the block, so to another part
  obtain ⟨c, hc, hclo, hchi⟩ := (ht.cover a.stop).mp ⟨b, hb, by omega, by omega⟩
  have hne : c ≠ a := by
    rintro rfl
    omega
  have := a.addr_lt_stop
  have := ht.disjoint hc ha hne
  omega

/-- Parts and free blocks that overlap are the same. -/
theorem Tiled.eq_part (ht : Tiled lo hi parts free []) (hla : Layout lo hi free [])
    (hb : b ∈ free) (ha : a ∈ parts) (hx : a.addr ≤ b.addr ∧ b.stop ≤ a.stop) : b = a := by
  have hblt := b.addr_lt_stop
  have halt := a.addr_lt_stop
  have hcover : ∀ x, a.addr ≤ x → x < a.stop → ∃ c ∈ free, c.addr ≤ x ∧ x < c.stop := by
    intro x hlo hhi
    simpa [Covered] using (ht.cover x).mpr ⟨a, ha, hlo, hhi⟩
  have hordered : ∀ c ∈ free, c ≠ b → c.stop ≤ b.addr ∨ b.stop ≤ c.addr := fun c hc hne =>
    (hla.ordered.imp (S := Block.Disj) fun hab => .inl hab).forall hc hb hne
  -- nothing is free in front of the block or behind it
  have hfront : b.addr = a.addr := by
    by_contra hne
    obtain ⟨c, hc, hclo, hchi⟩ := hcover (b.addr - 1) (by omega) (by omega)
    have hcb : c ≠ b := by
      rintro rfl
      omega
    have := hordered c hc hcb
    exact hla.stop_ne hc hb (by omega)
  have hback : b.stop = a.stop := by
    by_contra hne
    obtain ⟨c, hc, hclo, hchi⟩ := hcover b.stop (by omega) (by omega)
    have hcb : c ≠ b := by
      rintro rfl
      omega
    have := hordered c hc hcb
    exact hla.stop_ne hb hc (by omega)
  obtain ⟨baddr, bsize⟩ := b
  obtain ⟨aaddr, asize⟩ := a
  simp only [Block.stop, Block.mk.injEq] at hfront hback ⊢
  omega

/-- When nothing is live, the free blocks are the parts. -/
theorem Tiled.mem_free_iff (ht : Tiled lo hi parts free []) (hla : Layout lo hi free []) :
    b ∈ free ↔ b ∈ parts := by
  constructor
  · intro hb
    obtain ⟨a, ha, hx⟩ := ht.inside (List.mem_append_left _ hb)
    rwa [ht.eq_part hla hb ha hx]
  · intro hb
    have hlt := b.addr_lt_stop
    obtain ⟨c, hc, hclo, hchi⟩ := (ht.cover b.addr).mpr ⟨b, hb, le_rfl, by omega⟩
    rw [List.append_nil] at hc
    obtain ⟨a, ha, hx⟩ := ht.inside (List.mem_append_left _ hc)
    have hca := ht.eq_part hla hc ha hx
    subst hca
    -- two parts do not overlap
    by_cases hcb : b = c
    · rwa [hcb]
    · have := ht.disjoint hb ha hcb
      omega

theorem Tiled.length_eq (ht : Tiled lo hi parts free []) (hla : Layout lo hi free []) :
    free.length = parts.length := by
  have hfree : free.Nodup := hla.ordered.imp fun {a b} hab heq => by
    have := a.addr_lt_stop
    rw [heq] at hab this
    omega
  have hparts : parts.Nodup := ht.apart.imp fun {a b} hab heq => by
    have := a.addr_lt_stop
    rw [heq] at hab this
    omega
  exact ((List.perm_ext_iff_of_nodup hfree hparts).mpr fun b => ht.mem_free_iff hla).length_eq

theorem Tiled.cut {pre post : List Block} (ht : Tiled lo hi parts (pre ++ b :: post) live)
    (want : ℕ) : Tiled lo hi parts (pre ++ (b.rest want ++ post)) (b.cut want :: live) := by
  refine ht.recover fun x => ?_
  have hcut : Covered (b.rest want) x ∨ ((b.cut want).addr ≤ x ∧ x < (b.cut want).stop) ↔
      b.addr ≤ x ∧ x < b.stop := covered_cut
  simp only [covered_append, covered_cons, ← hcut, or_assoc, or_left_comm]

/-- A heap that has grown from `lo` to `hi` in `k` extensions. A heap at address 0
    loses blocks. -/
structure Grown (lo hi k : ℕ) (free live : List Block) : Prop where
  start : k = 0 → hi = lo
  grown : 0 < k → lo < hi
  tiled : lo ≠ 0 → ∃ parts : List Block, parts.length = k ∧ Tiled lo hi parts free live

theorem Grown.empty (lo : ℕ) : Grown lo lo 0 [] [] :=
  ⟨fun _ => rfl, fun hk => absurd hk (lt_irrefl 0), fun _ => ⟨[], rfl, .empty lo⟩⟩

theorem Grown.allocates {k : ℕ} (hg : Grown lo hi k free live) (hw : want % 8 = 0)
    (ha : Allocates want hi free b hi' free') :
    ((∃ c ∈ free, want ≤ c.size) ∧ Grown lo hi' k free' (b :: live)) ∨
      (∀ c ∈ free, c.size < want) ∧ Grown lo hi' (k + 1) free' (b :: live) := by
  have hle : lo ≤ hi := by
    obtain rfl | hk := Nat.eq_zero_or_pos k
    · exact (hg.start rfl).ge
    · exact (hg.grown hk).le
  cases ha with
  | reuse hpre hc =>
    refine .inl ⟨⟨_, by simp, hc⟩, hg.start, hg.grown, fun hlo => ?_⟩
    obtain ⟨parts, hlen, ht⟩ := hg.tiled hlo
    exact ⟨parts, hlen, ht.cut want⟩
  | extend hfit hhdr =>
    refine .inr ⟨hfit, fun hk => by omega, fun _ => by omega, fun hlo => ?_⟩
    obtain ⟨parts, hlen, ht⟩ := hg.tiled hlo
    exact ⟨_, by rw [List.length_cons, hlen], ht.extend hw hhdr⟩

theorem Grown.releases {k : ℕ} (hg : Grown lo hi k free live) (hp : live.Perm (b :: live'))
    (hr : Releases b free free') (hb : lo ≤ b.addr) : Grown lo hi k free' live' := by
  refine ⟨hg.start, hg.grown, fun hlo => ?_⟩
  obtain ⟨parts, hlen, ht⟩ := hg.tiled hlo
  exact ⟨parts, hlen, ht.release hp hr (by omega)⟩

end

/-! ## Runs -/

/-- No free block is large enough for the request. -/
def Arena.Extends (s : Arena) : Op → Prop
  | .malloc n => ∀ r ∈ findFreeBlockAndRemove (startBump s.heap) (alignUpUintptr n 8), r.1 = 0
  | _ => False

instance : ∀ (s : Arena) (op : Op), Decidable (s.Extends op)
  | s, .malloc n => inferInstanceAs (Decidable
      (∀ r ∈ findFreeBlockAndRemove (startBump s.heap) (alignUpUintptr n 8), r.1 = 0))
  | _, .free _ => isFalse id
  | _, .write _ _ => isFalse id

/-- A step of the heap, with the number of requests that no free block could
    serve. -/
def countedStep (s : Arena × ℕ) (op : Op) : Option (Arena × ℕ) :=
  (s.1.step op).map fun s' => (s', if s.1.Extends op then s.2 + 1 else s.2)

/-- The whole heap is one free block, and can be allocated again as one. -/
def OneBlock (h : HeapState) : Prop :=
  ∃ b : Block, FreeList h.mem h.freeListHead [b] ∧ b.addr ≠ 0 ∧
    b.addr = (h.freeRam + 7) / 8 * 8 ∧ b.stop = h.bumpNext ∧ ∀ n, 0 < n → n ≤ b.size → NoWrap h n →
      ∃ p h', kmalloc h n = some (p, h') ∧ h'.bumpNext = h.bumpNext

/-- A heap that has never been extended has no blocks. -/
def FullyCoalesced (h : HeapState) : Prop := h.bumpNext = h.freeRam ∨ OneBlock h

section

variable {h h' : HeapState} {free free' : List Block} {live : List (ℕ × ℕ)} {n : ℕ}

theorem Inv.extends_iff {s : Arena} (hi : Inv s.heap free s.live) :
    s.Extends (.malloc n) ↔ ∀ b ∈ free, b.size < alignUpUintptr n 8 := by
  show (∀ r ∈ findFreeBlockAndRemove (Heap.startBump s.heap) (alignUpUintptr n 8), r.1 = 0) ↔ _
  rw [hi.startBump]
  constructor
  · intro hr b hb
    by_contra hfit
    have hex : (free.find? fun b => alignUpUintptr n 8 ≤ b.size).isSome := by
      rw [List.find?_isSome]
      exact ⟨b, hb, by simpa using hfit⟩
    obtain ⟨c, hfirst⟩ := Option.isSome_iff_exists.mp hex
    obtain ⟨hc, pre, post, rfl, hpre⟩ := List.find?_eq_some_iff_append.mp hfirst
    obtain ⟨h1, hfind, -⟩ := find_some hi.list hi.layout.toArranged hi.bound
      (fun a ha => by simpa using hpre a ha) (by simpa using hc)
    exact hi.layout.nonnull c (by simp) (hr _ hfind)
  · intro hfit r hr
    rw [find_none hi.list hi.layout.toArranged hi.bound hfit] at hr
    cases hr
    rfl

/-- The steps of a run that starts at `lo`. -/
theorem Grown.step {s s' : Arena} {op : Op} {lo k : ℕ} (hi : Inv s.heap free s.live)
    (hlo : s.heap.freeRam = lo)
    (hg : Grown lo s.heap.bumpNext k free (s.live.map fun g => blockOf s.heap.mem g.1))
    (hp : Permitted s op) (hs : s.step op = some s') :
    ∃ free', Inv s'.heap free' s'.live ∧ s'.heap.freeRam = lo ∧
      Grown lo s'.heap.bumpNext (if s.Extends op then k + 1 else k) free'
        (s'.live.map fun g => blockOf s'.heap.mem g.1) := by
  cases op with
  | malloc n =>
    obtain ⟨⟨p, h'⟩, hcall, rfl⟩ := Option.map_eq_some_iff.mp hs
    obtain ⟨free', hdone⟩ := kmalloc_allocated hi hp.1 hp.2 hcall
    refine ⟨free', hdone.inv, hdone.preserves.freeRam.trans hlo, ?_⟩
    rw [List.map_cons, hdone.preserves.map_blockOf]
    have hwant := alignUp_eight_eq hp.2.1
    obtain ⟨⟨b, hb, hfit⟩, hg'⟩ | ⟨hfit, hg'⟩ := hg.allocates (by omega) hdone.blocks
    · rw [if_neg]
      · exact hg'
      · rw [hi.extends_iff]
        intro hall
        exact absurd (hall b hb) (by omega)
    · rw [if_pos (hi.extends_iff.mpr hfit)]
      exact hg'
  | free p =>
    obtain ⟨g, hfind, hs⟩ := Option.bind_eq_some_iff.mp hs
    obtain ⟨h', hcall, rfl⟩ := Option.map_eq_some_iff.mp hs
    obtain rfl : g.1 = p := by simpa using List.find?_some hfind
    have hmem := List.mem_of_find?_eq_some hfind
    obtain ⟨free', hdone⟩ := kfree_freed hi hmem hcall
    refine ⟨free', hdone.inv, hdone.preserves.freeRam.trans hlo, ?_⟩
    have hin := hi.layout.inside (blockOf s.heap.mem g.1)
      (List.mem_append_right _ (List.mem_map_of_mem hmem))
    have hk : (if s.Extends (.free g.1) then k + 1 else k) = k := if_neg id
    rw [hk, hdone.preserves.map_blockOf, hdone.bumpNext]
    exact hg.releases ((List.perm_cons_erase hmem).map _) hdone.blocks (hlo ▸ hin.1)
  | write a v =>
    cases hs
    refine ⟨free, hi.write hp.writable, hlo, ?_⟩
    have hmap : (s.live.map fun g => blockOf (Function.update s.heap.mem a v) g.1) =
        s.live.map fun g => blockOf s.heap.mem g.1 :=
      List.map_congr_left fun g hg => hi.write_blockOf hp.writable hg
    have hk : (if s.Extends (.write a v) then k + 1 else k) = k := if_neg id
    rw [hk, hmap]
    exact hg

/-- The block of a heap that was extended once serves every request that fits. -/
theorem Inv.oneBlock {b : Block} (hi : Inv h [b] []) (haddr : b.addr = (h.freeRam + 7) / 8 * 8)
    (hsize : b.size % 8 = 0) (hstop : b.stop = h.bumpNext) : OneBlock h := by
  refine ⟨b, hi.list, hi.layout.nonnull b (by simp), haddr, hstop, fun n hn hle hw => ?_⟩
  have hwant := alignUp_eight_eq hw.1
  have hfit : alignUpUintptr n 8 ≤ b.size := by omega
  have hempty : ∀ a ∈ ([] : List Block), a.size < alignUpUintptr n 8 := by simp
  obtain ⟨h', hcall, hdone⟩ := kmalloc_reuse hi hn hw hempty hfit
  exact ⟨_, h', hcall, hdone.blocks.hi_eq ⟨b, by simp, hfit⟩⟩

/-- For every heap and every run of requests and frees in which nothing wraps and
    after which nothing is live: the heap is one free block if and only if it was
    extended at most once, and not at address 0. -/
theorem full_coalescing_iff (h0 : Fresh h) {s : Arena} {k : ℕ}
    (hr : Reachable (restrict (Steps countedStep) fun s => Permitted s.1) (⟨h, []⟩, 0) (s, k))
    (hlive : s.live = []) : FullyCoalesced s.heap ↔ k = 0 ∨ k = 1 ∧ h.freeRam ≠ 0 := by
  obtain ⟨free, hi, hlo, hg⟩ : ∃ free, Inv s.heap free s.live ∧ s.heap.freeRam = h.freeRam ∧
      Grown h.freeRam s.heap.bumpNext k free (s.live.map fun g => blockOf s.heap.mem g.1) := by
    refine hr.invariant (P := fun s => ∃ free, Inv s.1.heap free s.1.live ∧
      s.1.heap.freeRam = h.freeRam ∧ Grown h.freeRam s.1.heap.bumpNext s.2 free
        (s.1.live.map fun g => blockOf s.1.heap.mem g.1))
      ⟨[], h0.inv, rfl, by rw [h0.bump]; exact .empty _⟩ ?_
    rintro u op v ⟨free, hi, hlo, hg⟩ ⟨hp, hs⟩
    obtain ⟨s', hs', rfl⟩ := Option.map_eq_some_iff.mp hs
    exact hg.step hi hlo hp hs'
  rw [hlive] at hi hg
  have hla : Layout h.freeRam s.heap.bumpNext free [] := hlo ▸ hi.layout
  constructor
  · rintro (hstart | ⟨b, hlist, hnull, haddr, -, -⟩)
    · obtain rfl | hk := Nat.eq_zero_or_pos k
      · exact .inl rfl
      · have := hg.grown hk
        omega
    · have hzero : h.freeRam ≠ 0 := by omega
      obtain ⟨parts, hlen, ht⟩ := hg.tiled hzero
      have hfree := hi.list.unique hlist hi.layout.nonnull (by simpa using hnull)
      have hone := ht.length_eq hla
      rw [hfree, hlen, List.length_singleton] at hone
      exact .inr ⟨hone.symm, hzero⟩
  · rintro (hk | ⟨hk, hzero⟩)
    · exact .inl ((hg.start hk).trans hlo.symm)
    · obtain ⟨parts, hlen, ht⟩ := hg.tiled hzero
      obtain ⟨a, rfl⟩ := List.length_eq_one_iff.mp (hlen.trans hk)
      obtain ⟨b, rfl⟩ := List.length_eq_one_iff.mp (ht.length_eq hla)
      obtain rfl : b = a := by
        simpa using (ht.mem_free_iff hla (b := b)).mp (List.mem_singleton_self b)
      refine .inr (hi.oneBlock ?_ (ht.shape b (List.mem_singleton_self b)).2 ht.top.symm)
      rw [hlo]
      exact ht.first b rfl

end

instance (s : Arena × ℕ) (op : Op) : Decidable (Permitted s.1 op) := inferInstance

/-- One extension, cut in three and joined again. -/
theorem full_coalescing_iff_three_pieces : ∃ s,
    Reachable (restrict (Steps countedStep) fun s => Permitted s.1) (⟨smallHeap, []⟩, 0) (s, 1) ∧
      s.live = [] ∧ FullyCoalesced s.heap := by
  obtain ⟨⟨s, _⟩, hrun, hlive, rfl⟩ : ∃ s,
      Run (restrict (Steps countedStep) fun s => Permitted s.1) (⟨smallHeap, []⟩, 0)
        [.malloc 100, .free 4108, .malloc 30, .malloc 8, .free 4152, .free 4108] s ∧
      s.1.live = [] ∧ s.2 = 1 :=
    exists_run_restrict (by decide +kernel)
  exact ⟨s, ⟨_, hrun⟩, hlive,
    (full_coalescing_iff ⟨rfl, rfl, by decide⟩ ⟨_, hrun⟩ hlive).mpr (.inr ⟨rfl, by decide⟩)⟩

/-- Two blocks of 8 bytes stay apart when both are free: the first ends at 4116,
    the header of the second is at 4120. -/
theorem two_blocks_stay_apart : ∃ s,
    Reachable (restrict (Steps Arena.step) Permitted) ⟨smallHeap, []⟩ s ∧ s.live = [] ∧
      s.heap.freeListHead = 4096 ∧ blockNext s.heap.mem 4096 = 4120 ∧ ¬FullyCoalesced s.heap := by
  obtain ⟨s, hrun, hlive, hhead, hnext, hbump, hram⟩ : ∃ s,
      Run (restrict (Steps Arena.step) Permitted) ⟨smallHeap, []⟩
        [.malloc 8, .malloc 8, .free 4108, .free 4132] s ∧
      s.live = [] ∧ s.heap.freeListHead = 4096 ∧ blockNext s.heap.mem 4096 = 4120 ∧
      s.heap.bumpNext = 4140 ∧ s.heap.freeRam = 4096 :=
    exists_run_restrict (by decide +kernel)
  refine ⟨s, ⟨_, hrun⟩, hlive, hhead, hnext, ?_⟩
  rintro (hstart | ⟨b, hlist, -, -, -, -⟩)
  · omega
  · obtain ⟨haddr, hend⟩ := hlist.links
    have hend : blockNext s.heap.mem b.addr = 0 := hend
    rw [← haddr, hhead] at hend
    omega

end Mboot.Heap
