import Mboot.Heap.Invariant

/-!
# What the allocator writes

The headers lie in the memory that `kmalloc` hands out, so its clients rely on
two facts: a call changes nothing they hold, and what they get is cleared.

* `heap_contents`: in every reachable heap, `kmalloc` and `kfree` write only to
  free blocks and to the block they are called for, and `kmalloc` clears the
  payload.
-/

namespace Mboot.Heap

open Common

variable {h h' : HeapState} {live : List (ℕ × ℕ)}

/-- The payloads of the blocks of `live` are the same in `h'` as in `h`. -/
def SamePayloads (h h' : HeapState) (live : List (ℕ × ℕ)) : Prop :=
  ∀ g ∈ live, ∀ x, g.1 ≤ x → x < (blockOf h.mem g.1).stop → h'.mem x = h.mem x

/-- Every byte that `h'` has changed lies in one of the blocks. -/
def WritesIn (h h' : HeapState) (bs : List Block) : Prop :=
  ∀ x, h'.mem x ≠ h.mem x → ∃ b ∈ bs, b.addr ≤ x ∧ x < b.stop

theorem writesIn_of_frame {bs : List Block}
    (hframe : ∀ x, (∀ b ∈ bs, x < b.addr ∨ b.stop ≤ x) → h'.mem x = h.mem x) :
    WritesIn h h' bs := by
  intro x hne
  by_contra hout
  push Not at hout
  refine hne (hframe x fun b hb => ?_)
  have := hout b hb
  omega

theorem Preserves.samePayloads (hp : Preserves h h' live) : SamePayloads h h' live :=
  fun g hg x hlo hhi => hp.blocks g hg x (by omega) hhi

/-- The blocks of the free list with the nodes `nodes`. -/
def freeBlocks (h : HeapState) (nodes : List ℕ) : List Block :=
  nodes.map fun a => ⟨a, blockSize h.mem a⟩

/-- For every reachable heap with the free list `nodes`: no call of `kmalloc` or
    `kfree` changes a payload that is not its own, every byte written lies in a
    free block or in the block of the call, and the payload that `kmalloc` returns
    is cleared. -/
theorem heap_contents (h0 : Fresh h) {s : Arena}
    (hr : Reachable (restrict (Steps Arena.step) Permitted) ⟨h, []⟩ s) :
    ∃ nodes, WellFormed s.heap s.live nodes ∧
      (∀ n p h', 0 < n → NoWrap s.heap n → kmalloc s.heap n = some (p, h') →
        SamePayloads s.heap h' s.live ∧ (∀ i < (n + 7) / 8 * 8, h'.mem (p + i) = 0) ∧
          WritesIn s.heap h' (blockOf h'.mem p :: freeBlocks s.heap nodes)) ∧
      ∀ g ∈ s.live, ∀ h', kfree s.heap g.1 = some h' →
        SamePayloads s.heap h' (s.live.filter (· ≠ g)) ∧
          WritesIn s.heap h' (blockOf s.heap.mem g.1 :: freeBlocks s.heap nodes) := by
  obtain ⟨free, hi⟩ := h0.reachable hr
  refine ⟨_, hi.wellFormed, fun n p h' hn hw hcall => ?_, fun g hg h' hcall => ?_⟩
  · obtain ⟨free', hdone⟩ := kmalloc_allocated hi hn hw hcall
    refine ⟨hdone.preserves.samePayloads, fun i hi => hdone.zero i ?_, ?_⟩
    · rwa [alignUp_eight_eq hw.1]
    · rw [freeBlocks, hi.list.nodes_eq]
      exact writesIn_of_frame hdone.frame
  · obtain ⟨free', hdone⟩ := kfree_freed hi hg hcall
    refine ⟨fun g' hg' => ?_, ?_⟩
    · obtain ⟨hmem, hne⟩ := List.mem_filter.mp hg'
      exact hdone.preserves.samePayloads g' ((List.mem_erase_of_ne (by simpa using hne)).mpr hmem)
    · rw [freeBlocks, hi.list.nodes_eq]
      exact writesIn_of_frame hdone.frame

/-- In the heap after `heapTrace`, a request is served from the joined block. -/
theorem heap_contents_reuse : ∃ s p h',
    Reachable (restrict (Steps Arena.step) Permitted) ⟨smallHeap, []⟩ s ∧
      kmalloc s.heap 30 = some (p, h') ∧ SamePayloads s.heap h' [(4228, 24)] ∧
      ∀ i < 32, h'.mem (p + i) = 0 := by
  obtain ⟨s, hrun, hlive, hw, hsome⟩ : ∃ s,
      Run (restrict (Steps Arena.step) Permitted) ⟨smallHeap, []⟩ heapTrace s ∧
      s.live = [(4228, 24)] ∧ NoWrap s.heap 30 ∧ (kmalloc s.heap 30).isSome :=
    exists_run_restrict (by decide +kernel)
  obtain ⟨⟨p, h'⟩, hcall⟩ := Option.isSome_iff_exists.mp hsome
  obtain ⟨nodes, -, hmalloc, -⟩ := heap_contents ⟨rfl, rfl, by decide⟩ ⟨_, hrun⟩
  obtain ⟨hsame, hzero, -⟩ := hmalloc 30 p h' (by decide) hw hcall
  exact ⟨s, p, h', ⟨_, hrun⟩, hcall, hlive ▸ hsame, hzero⟩

end Mboot.Heap
