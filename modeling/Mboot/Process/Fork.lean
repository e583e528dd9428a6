import Mboot.Process.Spawn

/-!
# The first step of a forked child

`fork_current` finds the child's copy of the stack page by a walk through the new
tables and writes the frame there, through the physical address of the copy. It
stores that physical address as the child's stack pointer.

* `forkCurrent_spends`: the child, its directory and its frame.
* `fork_loses_stack_pointer`: the child never goes on in the context of its
  parent: its stack pointer is another one.
-/

namespace Mboot.Process

open Common
open Heap (HeapState Owned room kmalloc_spends)
open Paging

variable {h h' : HeapState} {U : Set ℕ} {d : Directory} {kd pd r : ℕ}

/-- The child has the clone `c` of the directory, and its frame lies in the copy
    of the page of `r`. A frame in one page is the frame at `r` with `eax = 0`. -/
structure Forked (h : HeapState) (U : Set ℕ) (d : Directory) (r : ℕ) (child : Child)
    (h' : HeapState) : Prop where
  cloned : ∃ c h1, Cloned h (U ∪ d.pages) d c (2 ^ 20) h1 ∧ child.cr3 = c.pd ∧
    child.esp = pageOf (c.pte (r / 4096)) + r % 4096
  frame : r % 4096 + 48 ≤ 4096 →
    (∀ i < 48, pageOf (d.pte (r / 4096)) + r % 4096 + i ∈ U) → ∀ i < 48,
      h'.mem (child.esp + i) = if 24 ≤ i ∧ i < 28 then 0
        else h.mem (pageOf (d.pte (r / 4096)) + r % 4096 + i)

theorem forkCurrent_spends (hs : Space kd h U d) (hr : r < 2 ^ 32)
    (hm : Marked (d.pte (r / 4096))) :
    Spends room (8218 + cloneCost d + 126) (forkCurrent kd d.pd r) h (Forked h U d r) := by
  refine hs.clone_spends.bind fun dir h1 hq => ?_
  obtain ⟨c, rfl, hc⟩ := hq
  refine (kmalloc_spends hc.owned (n := 100) (by norm_num) (by norm_num)).andThen
    fun tcb h2 hg => ?_
  have hp : r / 4096 < 2 ^ 20 := by omega
  have hmc := (hc.marked_iff hp).mpr hm
  have hdesc : Describes h2.mem c := hc.desc.congr fun x hx => hg.keep x (.inl (.inr hx))
  have hvaddr : ((r + 36 + 12) % 2 ^ 32 + 2 ^ 32 - 48) % 2 ^ 32 = r := by omega
  dsimp only
  rw [hvaddr, dirIdx_eq, tableIdx_eq, and_low_twelve]
  apply readWord_bind
  apply readWord_bind
  rw [hdesc.words_of_marked hp hmc, and_frame (hdesc.pte_lt hp)]
  refine setMem_bind (setMem_bind (Spends.pure ⟨⟨c, h1, hc, rfl, rfl⟩, fun hin hU i hi => ?_⟩))
  -- the bytes are read through the directory of the parent
  have hpar : Describes h2.mem d := hs.desc.congr fun x hx =>
    (hg.keep x (.inl (.inl (.inr hx)))).trans (hc.keep x (.inr hx))
  have hbyte : readVirtual h2.mem d.pd (r + i) =
      some (h.mem (pageOf (d.pte (r / 4096)) + r % 4096 + i)) := by
    have hdiv : (r + i) / 4096 = r / 4096 := by omega
    have hmod : (r + i) % 4096 = r % 4096 + i := by omega
    rw [hpar.readVirtual (by omega) fun x _ => rfl, hdiv, hmod, ← Nat.add_assoc,
      hg.keep _ (.inl (.inl (.inl (hU i hi)))), hc.keep _ (.inl (hU i hi))]
  dsimp only
  split_ifs with heax
  · obtain ⟨k, rfl⟩ : ∃ k, i = 24 + k := ⟨i - 24, by omega⟩
    rw [← Nat.add_assoc, storeWord, store_apply _ _ (by rw [length_leBytes]; omega)]
    have hk : k < 4 := by omega
    interval_cases k <;> rfl
  · rw [storeWord_of_outside _ _ (by omega), store_apply _ _ (by simp [bytesVirtual, hi])]
    simp [bytesVirtual, hbyte]

/-- A fork is complete when the child goes on with the registers of the parent at
    the system call, except for `eax`, which is zero. -/
def ResumesAsParent (h : HeapState) (pd r : ℕ) (h' : HeapState) (child : Child) : Prop :=
  resume h'.mem child.cr3 child.esp = { resume h.mem pd r with eax := 0 }

/-- The stack pointer of the child is an address in a page that was free before. -/
theorem Forked.esp_ne {child : Child} (hf : Forked h U d r child h') (hr : r < 2 ^ 32)
    (hm : Marked (d.pte (r / 4096))) (hrU : r ∈ U) :
    (resume h'.mem child.cr3 child.esp).esp ≠ (resume h.mem d.pd r).esp := by
  obtain ⟨c, h1, hc, -, hesp⟩ := hf.cloned
  have hp : r / 4096 < 2 ^ 20 := by omega
  have hfresh := (hc.frame_fresh _ (Cloned.frame_mem hp hm (Nat.mod_lt r (by norm_num)))).1
  have hne : child.esp ≠ r := by
    rw [hesp]
    intro heq
    rw [heq] at hfresh
    exact hfresh (.inl hrU)
  have hlt : child.esp < 2 ^ 32 := by
    have hbound := hc.desc.pte_lt hp
    rw [hesp]
    simp only [pageOf]
    omega
  show (child.esp + 48) % 2 ^ 32 ≠ (r + 48) % 2 ^ 32
  omega

theorem not_resumesAsParent {child : Child}
    (hsp : (resume h'.mem child.cr3 child.esp).esp ≠ (resume h.mem pd r).esp) :
    ¬ResumesAsParent h pd r h' child := by
  intro heq
  rw [show resume h'.mem child.cr3 child.esp = _ from heq] at hsp
  exact hsp rfl

/-- For every directory of a task and every frame `r` in a `PAGE_USER` page, in a
    stack that is allocated: the child's stack pointer is not the parent's. -/
theorem fork_loses_stack_pointer (hb : Built kd h U pd) (hr : r < 2 ^ 32) (hu : IsUser h.mem pd r)
    (hrU : r ∈ U) :
    (∀ child h', forkCurrent kd pd r h = some (child, h') →
      (resume h'.mem child.cr3 child.esp).esp ≠ (resume h.mem pd r).esp ∧
        ¬ResumesAsParent h pd r h' child) ∧
    (8218 * (1 + 2 * userPages h.mem pd) + 126 ≤ room h → (forkCurrent kd pd r h).isSome) := by
  obtain ⟨d, rfl, hs⟩ := hb.space
  have hm := (hs.desc.isUser_iff hr).mp hu
  have hfork := forkCurrent_spends hs hr hm
  constructor
  · intro child h' hcall
    have hsp := (hfork.post child h' hcall).1.esp_ne hr hm hrU
    exact ⟨hsp, not_resumesAsParent hsp⟩
  · intro hroom
    refine hfork.returns ?_
    rw [hs.desc.cloneCost_eq]
    omega

/-- The first task of the machine makes a system call with its frame at `0x2011F00`,
    on its stack. -/
theorem pagedHeap_syscall : ∃ t d U h,
    createUserTaskFromSegments 0x2001000 0x40000000 [⟨0x40000000, 1, 2, 0x7C00⟩] 0 (fun _ => 0)
      pagedHeap = some (some t, h) ∧
    d.pd = t.cr3 ∧ Space 0x2001000 h U d ∧ IsUser h.mem t.cr3 0x2011F00 ∧ 0x2011F00 ∈ U ∧
    8218 * (1 + 2 * userPages h.mem t.cr3) + 126 ≤ room h := by
  obtain ⟨t, P, d, U, ptrs, h, hcall, -, hstack, hroom, hc⟩ :=
    pagedHeap_spawns program_small 0x40000000
  have hst : t.StackPage 0x2011F00 := by
    rw [UserTask.StackPage, hstack]
    decide
  have hpages := hc.userPages_le (by simp)
  rw [program_small.pageCount_eq] at hpages
  refine ⟨t, d, U, h, hcall, hc.pd, hc.space, ?_, hc.owned (.inl (.inr ?_)), by omega⟩
  · rw [← hc.pd, hc.space.desc.isUser_iff (by norm_num), hc.pte_stack hst]
    decide
  · rw [hstack, Set.mem_Ico]
    decide

theorem fork_loses_stack_pointer_first : ∃ t h child h',
    createUserTaskFromSegments 0x2001000 0x40000000 [⟨0x40000000, 1, 2, 0x7C00⟩] 0 (fun _ => 0)
      pagedHeap = some (some t, h) ∧
    forkCurrent 0x2001000 t.cr3 0x2011F00 h = some (child, h') ∧
    (resume h'.mem child.cr3 child.esp).esp ≠ (resume h.mem t.cr3 0x2011F00).esp := by
  obtain ⟨t, d, U, h, hcall, hpd, hs, hu, hrU, hroom⟩ := pagedHeap_syscall
  obtain ⟨hpost, hreturns⟩ := fork_loses_stack_pointer (hpd ▸ hs.built) (by norm_num) hu hrU
  obtain ⟨⟨child, h'⟩, hfork⟩ := Option.isSome_iff_exists.mp (hreturns hroom)
  exact ⟨t, h, child, h', hcall, hfork, (hpost child h' hfork).1⟩

theorem first_fork_not_resumed : ∃ t h child h',
    createUserTaskFromSegments 0x2001000 0x40000000 [⟨0x40000000, 1, 2, 0x7C00⟩] 0 (fun _ => 0)
      pagedHeap = some (some t, h) ∧ IsUser h.mem t.cr3 0x2011F00 ∧
    forkCurrent 0x2001000 t.cr3 0x2011F00 h = some (child, h') ∧
    ¬ResumesAsParent h t.cr3 0x2011F00 h' child := by
  obtain ⟨t, d, U, h, hcall, hpd, hs, hu, hrU, hroom⟩ := pagedHeap_syscall
  rw [← hpd] at hu hroom
  have hr : 0x2011F00 < 2 ^ 32 := by norm_num
  have hm := (hs.desc.isUser_iff hr).mp hu
  have hspends := forkCurrent_spends hs hr hm
  rw [hs.desc.cloneCost_eq] at hspends
  obtain ⟨child, h', hfork, hforked, -⟩ := hspends.result (by omega)
  have hsp := hforked.esp_ne hr hm hrU
  exact ⟨t, h, child, h', hcall, hpd ▸ hu, hpd ▸ hfork, hpd ▸ not_resumesAsParent hsp⟩

end Mboot.Process
