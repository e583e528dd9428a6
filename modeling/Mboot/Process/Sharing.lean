import Mboot.Process.Fork

/-!
# Kernel memory across a fork

The kernel keeps one copy of its own objects: in every directory the memory that
is not of the process is mapped to itself. The stack of a task comes from
`kmalloc` and starts anywhere in a page, but whole pages of it are marked
`PAGE_USER`, and a clone copies every marked page.

* `kernel_memory_shared_iff`: the directory of a task and its clone share the
  kernel memory exactly when the stack is page-aligned or lies in the image.
* `first_fork_copies_tcb`: the control block of the first task lies in the page
  in which its stack begins, and a child sees a copy of it.
-/

namespace Mboot.Process

open Common
open Heap (HeapState Owned room)
open Paging

variable {h₀ h₁ h h' : HeapState} {U U' W : Set ℕ} {d c : Directory} {kd entry n : ℕ}
  {m₀ : ℕ → UInt8} {segments : List Segment} {args : ℕ → List UInt8} {t : UserTask} {P : ℕ → ℕ}
  {ptrs : List ℕ}

/-- Outside of the stack and of the image, the directory of the task and the
    directory `child` map every address to itself. -/
def KernelShared (m : ℕ → UInt8) (t : UserTask) (child : ℕ) : Prop :=
  ∀ v < 2 ^ 32, v ∉ Set.Ico t.stackBase (t.stackBase + taskStackSize) →
    v ∉ Set.Ico t.imageBase t.imageEnd → translate m t.cr3 v = some v ∧ translate m child v = some v

/-- The task has run for a while since `h₁`, together with the rest of the kernel: the
    memory `W` is in use, with its stack and the kernel directory in it, and the
    directories are as they were. -/
structure Running (kd : ℕ) (t : UserTask) (h₁ h : HeapState) (W : Set ℕ) : Prop where
  owned : Owned h (W ∪ tableBytes h₁.mem t.cr3)
  kernel_owned : pageSet kd ⊆ W
  stack_owned : Set.Ico t.stackBase (t.stackBase + taskStackSize) ⊆ W
  apart : ∀ x ∈ W, x ∉ tableBytes h₁.mem t.cr3
  same : ∀ x ∈ pageSet kd ∪ tableBytes h₁.mem t.cr3, h.mem x = h₁.mem x

theorem Running.space (hrun : Running kd t h₁ h W)
    (hr : Ready kd m₀ U segments entry n args t P d U' ptrs h₁) : Space kd h W d := by
  obtain ⟨ho, hkd, -, hapart, hsame⟩ := hrun
  rw [← hr.pd, hr.space.desc.tableBytes_eq] at ho hapart hsame
  exact hr.space.others ho hkd hapart hsame

/-- A task that has just been created. -/
theorem Ready.running (hr : Ready kd m₀ U segments entry n args t P d U' ptrs h) :
    Running kd t h h U' := by
  have hbytes : tableBytes h.mem t.cr3 = d.pages := by
    rw [← hr.pd, hr.space.desc.tableBytes_eq]
  refine ⟨?_, hr.space.kernel_owned, fun x hx => hr.owned (.inl (.inr hx)), ?_, fun _ _ => rfl⟩
  · rw [hbytes]
    exact hr.space.owned
  · rw [hbytes]
    exact hr.space.apart

/-- The task itself sees the kernel memory where it is. -/
theorem Ready.translate_kernel (hr : Ready kd m₀ U segments entry n args t P d U' ptrs h₁)
    (hv : ∀ s ∈ segments, s.vaddr < 2 ^ 32) {m : ℕ → UInt8} (hd : Describes m d) {v : ℕ}
    (hlt : v < 2 ^ 32) (himg : v ∉ Set.Ico t.imageBase t.imageEnd) : translate m t.cr3 v = some v := by
  have hpage : pageOf (d.pte (v / 4096)) = pageOf v := by
    by_cases hst : t.StackPage v
    · rw [hr.pte_stack hst]
      simp only [pageOf]
      omega
    · rw [hr.pte_kernel hv hst himg]
      simp only [pageOf]
      omega
  rw [← hr.pd, hd.translate hlt, hpage]
  simp only [pageOf, Option.some.injEq]
  omega

/-- The clone shares what is on no page of the stack. -/
theorem Ready.shared (hr : Ready kd m₀ U segments entry n args t P d U' ptrs h₁)
    (hv : ∀ s ∈ segments, s.vaddr < 2 ^ 32) (hc : Cloned h W d c (2 ^ 20) h') {v : ℕ} (hlt : v < 2 ^ 32)
    (hst : ¬t.StackPage v) (himg : v ∉ Set.Ico t.imageBase t.imageEnd) :
    translate h'.mem c.pd v = some v := by
  refine hc.translate_other hlt fun hm => ?_
  rw [hr.pte_kernel hv hst himg] at hm
  simp only [Marked] at hm
  omega

/-- The clone has its own copy of every page of the stack. -/
theorem Ready.copied (hr : Ready kd m₀ U segments entry n args t P d U' ptrs h₁)
    (hc : Cloned h W d c (2 ^ 20) h')
    (hstack : Set.Ico t.stackBase (t.stackBase + taskStackSize) ⊆ W) {v x : ℕ}
    (hx : x ∈ Set.Ico t.stackBase (t.stackBase + taskStackSize)) (hpage : v / 4096 = x / 4096) :
    translate h'.mem c.pd v ≠ some v := by
  have hbound := hr.stack_bound
  obtain ⟨hlo, hhi⟩ := hx
  simp only [taskStackSize, Nat.reduceMul] at hhi
  have hst : t.StackPage v := by
    refine ⟨?_, ?_⟩
    · simp only [pageOf]
      omega
    · simp only [pageOf, taskStackSize]
      omega
  refine hc.translate_marked_ne (by omega) ?_ (hstack ⟨hlo, hhi⟩) hpage.symm
  rw [hr.pte_stack hst]
  simp only [Marked, pageOf]
  omega

theorem Ready.kernelShared_iff (hr : Ready kd m₀ U segments entry n args t P d U' ptrs h₁)
    (hv : ∀ s ∈ segments, s.vaddr < 2 ^ 32) (hpar : Describes h'.mem d)
    (hc : Cloned h W d c (2 ^ 20) h')
    (hstack : Set.Ico t.stackBase (t.stackBase + taskStackSize) ⊆ W) :
    KernelShared h'.mem t c.pd ↔ t.stackBase % 4096 = 0 ∨
      t.imageBase ≤ t.stackBase ∧ t.stackBase + taskStackSize ≤ t.imageEnd := by
  have hbound := hr.stack_bound
  obtain ⟨hbase, hcount, hlt⟩ := hr.span_pages hv
  constructor
  · intro hshared
    by_contra hcon
    obtain ⟨hal, hout⟩ := not_or.mp hcon
    simp only [taskStackSize, Nat.reduceMul] at hout
    by_cases hlow : t.imageBase ≤ t.stackBase
    · -- the end of the last page
      refine hr.copied (v := t.stackBase + 65536) (x := t.stackBase + 65535) hc hstack ?_ (by omega)
        (hshared _ (by omega) ?_ ?_).2
      · simp only [Set.mem_Ico, taskStackSize]
        omega
      · simp only [Set.mem_Ico, taskStackSize]
        omega
      · rw [Set.mem_Ico]
        omega
    · -- the beginning of the first page
      refine hr.copied (v := pageOf t.stackBase) (x := t.stackBase) hc hstack ?_ ?_
        (hshared _ ?_ ?_ ?_).2
      · simp only [Set.mem_Ico, taskStackSize]
        omega
      all_goals
        simp only [pageOf, Set.mem_Ico]
        omega
  · intro hcond v hvlt hnst himg
    refine ⟨hr.translate_kernel hv hpar hvlt himg,
      hr.shared hv hc hvlt (fun hst => ?_) himg⟩
    obtain ⟨hlo, hhi⟩ := hst
    simp only [pageOf, Set.mem_Ico, taskStackSize, Nat.reduceMul] at hlo hhi hnst himg hcond
    omega

/-- For every task that `create_user_task_from_segments` builds, however long it has
    run, and for the clone of its directory: kernel memory is shared exactly when the
    stack is page-aligned or lies in the image. -/
theorem kernel_memory_shared_iff {argc : ℤ} {argv : ℕ → ℕ}
    (hin : CreateInput kd h₀ U segments argv args (min argc.toNat maxTaskArgs))
    (hspawn : createUserTaskFromSegments kd entry segments argc argv h₀ = some (some t, h₁))
    (hrun : Running kd t h₁ h W) :
    (∀ child h', pagingCloneDirectory kd t.cr3 h = some (child, h') →
      (KernelShared h'.mem t child ↔ t.stackBase % 4096 = 0 ∨
        t.imageBase ≤ t.stackBase ∧ t.stackBase + taskStackSize ≤ t.imageEnd)) ∧
    (8218 * (1 + 2 * userPages h.mem t.cr3) ≤ room h →
      (pagingCloneDirectory kd t.cr3 h).isSome) := by
  obtain ⟨⟨-, hsome⟩, -⟩ := (createUserTask_created hin entry).post _ _ hspawn
  obtain ⟨P, d, U', ptrs, hcr⟩ := hsome t rfl
  have hs := hrun.space hcr.toReady
  have hclone := hs.clone_spends
  rw [hs.desc.cloneCost_eq, hcr.pd] at hclone
  constructor
  · intro child h' hcall
    obtain ⟨⟨c, rfl, hc⟩, -⟩ := hclone.post child h' hcall
    have hpar : Describes h'.mem d := hs.desc.congr fun x hx => hc.keep x (.inr hx)
    exact hcr.kernelShared_iff hin.loadable.vaddr_lt hpar hc
      (hrun.stack_owned.trans Set.subset_union_left)
  · exact fun hroom => hclone.returns (by omega)

/-- The first task of the machine forks at once. -/
theorem kernel_memory_shared_iff_first : ∃ t h child h',
    createUserTaskFromSegments 0x2001000 0x40000000 [⟨0x40000000, 1, 2, 0x7C00⟩] 0 (fun _ => 0)
      pagedHeap = some (some t, h) ∧
    pagingCloneDirectory 0x2001000 t.cr3 h = some (child, h') ∧
    ¬KernelShared h'.mem t child := by
  obtain ⟨t, P, d, U', ptrs, h, hcall, -, hstack, hroom, hcr⟩ :=
    pagedHeap_spawns program_small 0x40000000
  have hpages := hcr.userPages_le (by simp)
  rw [program_small.pageCount_eq] at hpages
  obtain ⟨hpost, hreturns⟩ :=
    kernel_memory_shared_iff (pagedHeap_input program_small) hcall hcr.running
  obtain ⟨⟨child, h'⟩, hclone⟩ := Option.isSome_iff_exists.mp (hreturns (by omega))
  refine ⟨t, h, child, h', hcall, hclone, fun hshared => ?_⟩
  have hbase : t.imageBase = 0x40000000 := (Prod.mk.inj (hcr.span.trans program_small.span)).1
  have := (hpost child h' hclone).mp hshared
  omega

/-- Its control block is at `0x200201C`, and its stack begins at `0x2002094` in the
    same page. The child sees another copy of the control block. -/
theorem first_fork_copies_tcb : ∃ t h child h',
    createUserTaskFromSegments 0x2001000 0x40000000 [⟨0x40000000, 1, 2, 0x7C00⟩] 0 (fun _ => 0)
      pagedHeap = some (some t, h) ∧
    t.tcb = 0x200201C ∧ t.stackBase = 0x2002094 ∧ t.imageBase = 0x40000000 ∧
    pagingCloneDirectory 0x2001000 t.cr3 h = some (child, h') ∧
    translate h'.mem t.cr3 0x200201C = some 0x200201C ∧
    translate h'.mem child 0x200201C ≠ some 0x200201C := by
  obtain ⟨t, P, d, U', ptrs, h, hcall, htcb, hstack, hroom, hcr⟩ :=
    pagedHeap_spawns program_small 0x40000000
  have hpages := hcr.userPages_le (by simp)
  rw [program_small.pageCount_eq, ← hcr.pd] at hpages
  have hbase : t.imageBase = 0x40000000 := (Prod.mk.inj (hcr.span.trans program_small.span)).1
  have hspends := hcr.space.clone_spends
  rw [hcr.space.desc.cloneCost_eq] at hspends
  obtain ⟨child, h', hclone, ⟨c, rfl, hc⟩, -⟩ := hspends.result (by omega)
  have hpar : Describes h'.mem d := hcr.space.desc.congr fun x hx => hc.keep x (.inr hx)
  rw [hcr.pd] at hclone
  refine ⟨t, h, c.pd, h', hcall, htcb, hstack, hbase, hclone,
    hcr.translate_kernel (by simp) hpar (by norm_num) ?_,
    hcr.copied hc (hcr.running.stack_owned.trans Set.subset_union_left) (x := 0x2002094) ?_ ?_⟩
  · rw [Set.mem_Ico]
    omega
  · rw [hstack, Set.mem_Ico]
    decide
  · decide

end Mboot.Process
