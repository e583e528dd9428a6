import Mboot.Paging.AddressSpace

/-!
# Creating, replacing and forking processes

Model of the part of `create_user_task_from_segments`, `scheduler_exec_replace` and
`fork_current` (`stage2/scheduler.c`, lines 320–431, 85–234 and 510–554) that builds
memory: the image, the stack with the initial frame, the page directory. The fields
of the task control block that do not concern memory, its descriptors and its place
in the list of tasks are in `Mboot.Scheduler` and `Mboot.Vfs`.

`kmalloc` halts when it has no memory, so the tests of its results for null are left
out.
-/

namespace Mboot.Process

open Common
open Heap (Kernel alignUpUintptr)
open Paging

abbrev taskStackSize : ℕ := 64 * 1024
abbrev maxTaskArgs : ℕ := 16
abbrev gdtCodeSeg : ℕ := 0x08

/-- `sizeof(tcb_t)`. -/
abbrev tcbSize : ℕ := 100

/-- `user_segment_t`; `data` is a pointer. -/
structure Segment where
  vaddr : ℕ
  filesz : ℕ
  memsz : ℕ
  data : ℕ

/-- `page_align_down` (line 33). -/
def pageAlignDown (x : ℕ) : ℕ := x &&& 0xFFFFF000

/-- `page_align_up` (lines 35–37). -/
def pageAlignUp (x : ℕ) : ℕ := alignUpUintptr x pageSize

/-- `alloc_user_page` (lines 39–48). -/
def allocUserPage : Kernel ℕ := do
  let page ← allocAlignedPage
  setMem fun m => fill m page 0 pageSize
  return page

/-! ## The image -/

/-- One round of the loop over the segments (lines 340–347). -/
def widen (span : ℕ × ℕ) (s : Segment) : ℕ × ℕ :=
  let segBase := pageAlignDown s.vaddr
  let segEnd := pageAlignUp ((s.vaddr + s.memsz) % 2 ^ 32)
  (if segBase < span.1 then segBase else span.1, if segEnd > span.2 then segEnd else span.2)

/-- `image_base` and `image_end` (lines 338–347). -/
def imageSpan (segments : List Segment) : ℕ × ℕ := segments.foldl widen (0xFFFFFFFF, 0)

/-- Lines 351–358: the pages of the image, mapped and recorded in `image_pages`. -/
def allocImage (dir imageBase pageCount : ℕ) : Kernel ℕ := do
  let imagePages ← kmalloc (pageCount * 4)
  forM (List.range pageCount) fun i => do
    let page ← allocUserPage
    writeWord (imagePages + 4 * i) page
    let page ← readWord (imagePages + 4 * i)
    pagingMapPage dir ((imageBase + i * pageSize) % 2 ^ 32) page (pageUser ||| pageWritable)
  return imagePages

/-- One round of the `while` loop of lines 364–373: `len` bytes from `src` to
    offset `pageOff` of the page `image_pages[pageIdx]`. -/
structure Chunk where
  pageIdx : ℕ
  pageOff : ℕ
  src : ℕ
  len : ℕ

/-- The rounds of the `while` loop. -/
def chunks (imageBase dst src remaining : ℕ) : List Chunk :=
  if remaining = 0 then []
  else
    let pageOff := dst &&& 0xFFF
    let chunk := if pageSize - pageOff > remaining then remaining else pageSize - pageOff
    ⟨(pageAlignDown dst + 2 ^ 32 - imageBase) % 2 ^ 32 / pageSize, pageOff, src, chunk⟩ ::
      chunks imageBase ((dst + chunk) % 2 ^ 32) ((src + chunk) % 2 ^ 32) (remaining - chunk)
termination_by remaining
decreasing_by
  have hoff : dst &&& 0xFFF < 4096 := by
    rw [and_low_twelve]
    omega
  split_ifs <;> simp only [pageSize] at * <;> omega

/-- `memcpy((void *)(image_pages[page_idx] + page_off), src, chunk)`. -/
def copyChunk (imagePages : ℕ) (m : ℕ → UInt8) (c : Chunk) : ℕ → UInt8 :=
  copy m (load 4 m (imagePages + 4 * c.pageIdx) + c.pageOff) c.src c.len

/-- Lines 360–374. -/
def copySegments (imagePages imageBase : ℕ) (segments : List Segment) (m : ℕ → UInt8) : ℕ → UInt8 :=
  segments.foldl
    (fun m s => (chunks imageBase s.vaddr s.data s.filesz).foldl (copyChunk imagePages) m) m

/-- Lines 350–374: the image in the directory `dir`. -/
def loadImage (dir : ℕ) (segments : List Segment) : Kernel ℕ := do
  let span := imageSpan segments
  let imagePages ← allocImage dir span.1 ((span.2 - span.1) / pageSize)
  setMem (copySegments imagePages span.1 segments)
  return imagePages

/-! ## The stack -/

/-- The loop of lines 376–379. -/
def mapStack (dir addr stop : ℕ) : Kernel PUnit :=
  if addr < stop then do
    pagingMapPage dir addr addr (pageUser ||| pageWritable)
    mapStack dir (addr + pageSize) stop
  else return ()
termination_by stop - addr
decreasing_by simp only [pageSize]; omega

/-- `*--sp = w` for each `w` of a list. -/
def pushWords (sp : ℕ) : List ℕ → Kernel ℕ
  | [] => return sp
  | w :: ws => do
    writeWord (sp - 4) w
    pushWords (sp - 4) ws

/-- `strlen`; `none` when there is no end. -/
def strlen (m : ℕ → UInt8) (s : ℕ) : ℕ → ℕ → Option ℕ
  | 0, _ => none
  | fuel + 1, len => if m (s + len) = 0 then some len else strlen m s fuel (len + 1)

/-- `copy_arg` (lines 19–24). -/
def copyArg (arg : ℕ) : Kernel ℕ := do
  let len ← fun h => (strlen h.mem arg (2 ^ 32) 0).map (·, h)
  let dst ← kmalloc (len + 1)
  setMem fun m => copy m dst arg (len + 1)
  return dst

/-- The loop of lines 388–390: copies of `argv[n - 1], …, argv[0]`. -/
def pushArgs (argv : ℕ → ℕ) : ℕ → ℕ → Kernel ℕ
  | 0, sp => return sp
  | n + 1, sp => do
    let arg ← copyArg (argv n)
    writeWord (sp - 4) arg
    pushArgs argv n (sp - 4)

/-! ## Creation -/

/-- What is stored in the new task control block, and where the image lies. -/
structure UserTask where
  tcb : ℕ
  esp : ℕ
  stackBase : ℕ
  cr3 : ℕ
  imageBase : ℕ
  imageEnd : ℕ

/-- Lines 385–404: the initial frame. -/
def initialFrame (stack entry argc : ℕ) (argv : ℕ → ℕ) : Kernel ℕ := do
  let sp ← pushWords (stack + taskStackSize) [0, 0]
  let sp ← pushArgs argv argc sp
  pushWords sp ([argc, 0x202, gdtCodeSeg, entry] ++ List.replicate 9 0)

/-- `create_user_task_from_segments` (lines 320–431): `none` stands for the
    result `-1`. -/
def createUserTaskFromSegments (pageDirectory entry : ℕ) (segments : List Segment) (argc : ℤ)
    (argv : ℕ → ℕ) : Kernel (Option UserTask) :=
  if argc < 0 ∨ segments = [] then return none
  else do
    let argc := min argc.toNat maxTaskArgs
    let tcb ← kmalloc tcbSize
    let stack ← kmalloc taskStackSize
    let dir ← pagingCreateDirectory pageDirectory
    let span := imageSpan segments
    if span.1 ≥ span.2 then return none
    else do
      let _ ← loadImage dir segments
      mapStack dir (stack &&& 0xFFFFF000) (stack + taskStackSize)
      let sp ← initialFrame stack entry argc argv
      return some ⟨tcb, sp, stack, dir, span.1, span.2⟩

/-! ## Accesses of a running task -/

/-- `n` bytes at the virtual address `v`. -/
def bytesVirtual (m : ℕ → UInt8) (cr3 v n : ℕ) : List UInt8 :=
  (List.range n).map fun i => (readVirtual m cr3 (v + i)).getD 0

/-- The memory as the directory at `cr3` shows it. -/
def seen (m : ℕ → UInt8) (cr3 v : ℕ) : UInt8 := (readVirtual m cr3 v).getD 0

/-- `*(uint32_t *)v = n` under `cr3`. -/
def writeWordVirtual (cr3 v n : ℕ) : Kernel PUnit := setMem fun m =>
  (List.range 4).foldl (fun m i => writeVirtual m cr3 (v + i) ((leBytes 4 n).getD i 0)) m

/-! ## Exec -/

/-- `copy_arg` (lines 19–24) of a string in the address space of `cr3`. -/
def copyArgOf (cr3 arg : ℕ) : Kernel ℕ := do
  let len ← fun h => (strlen (seen h.mem cr3) arg (2 ^ 32) 0).map (·, h)
  let dst ← kmalloc (len + 1)
  setMem fun m => store m dst (bytesVirtual m cr3 arg (len + 1))
  return dst

/-- The loop of lines 101–108, with at most `n` rounds to go: `kargv` are the copies
    so far. A null pointer ends it; where `argv` itself is null, all pointers are. -/
def copyArgs (cr3 : ℕ) (argv : ℕ → ℕ) : ℕ → List ℕ → Kernel (List ℕ)
  | 0, kargv => return kargv
  | n + 1, kargv =>
    if argv kargv.length = 0 then return kargv
    else do
      let arg ← copyArgOf cr3 (argv kargv.length)
      copyArgs cr3 argv n (kargv ++ [arg])

/-- Lines 97–118: the arguments, the clone that is made and cleared, and the new
    directory. -/
def execPrepare (pageDirectory cr3 argc : ℕ) (argv : ℕ → ℕ) : Kernel (List ℕ × ℕ) := do
  let kargv ← copyArgs cr3 argv argc []
  let cloneTmp ← pagingCloneDirectory pageDirectory cr3
  pagingFreeDirectory pageDirectory cloneTmp
  let dir ← pagingCreateDirectory pageDirectory
  return (kargv, dir)

/-- Lines 169–176: the stack of the task; a forked child gets one. -/
def execStack (stackBase : ℕ) : Kernel ℕ :=
  if stackBase = 0 then kmalloc taskStackSize else return stackBase

/-- Lines 182–202: the initial frame. -/
def execFrame (stack entry : ℕ) (kargv : List ℕ) : Kernel ℕ :=
  pushWords (stack + taskStackSize)
    ([0, 0] ++ kargv.reverse ++ [kargv.length, 0x202, gdtCodeSeg, entry] ++ List.replicate 9 0)

/-- Lines 218–223: `eip`, `cs`, `eflags` and `eax` of the frame at `r`, under the new
    directory. -/
def setSaved (cr3 entry : ℕ) : Option ℕ → Kernel PUnit
  | none => return ()
  | some r => do
    writeWordVirtual cr3 (r + 36) entry
    writeWordVirtual cr3 (r + 40) gdtCodeSeg
    writeWordVirtual cr3 (r + 44) 0x202
    writeWordVirtual cr3 (r + 24) 0

/-- Lines 131–204: the image, the stack and the initial frame, in the directory `dir`.
    The results are the stack and the stack pointer. -/
def execBuild (dir : ℕ) (segments : List Segment) (stackBase entry : ℕ) (kargv : List ℕ) :
    Kernel (ℕ × ℕ) := do
  let _ ← loadImage dir segments
  let stack ← execStack stackBase
  mapStack dir (stack &&& 0xFFFFF000) (stack + taskStackSize)
  let sp ← execFrame stack entry kargv
  return (stack, sp)

/-- What the task control block has of the memory of a task. -/
structure TaskMemory where
  tcb : ℕ
  stackBase : ℕ
  cr3 : ℕ

/-- `scheduler_exec_replace` (lines 85–234) up to the release of `image_pages` in
    line 225: `none` stands for the result 0. `current` is `none` for the idle task.
    The task goes on with the registers saved at `esp`. The code runs under the `CR3` of
    the caller, but accesses the heap physically here: the caller's directory maps it to
    itself. -/
def schedulerExecReplace (pageDirectory : ℕ) (current : Option TaskMemory) (entry : ℕ)
    (segments : List Segment) (argc : ℤ) (argv : ℕ → ℕ) (r : Option ℕ) : Kernel (Option UserTask) :=
  match current with
  | none => return none
  | some task =>
    if segments = [] then return none
    else do
      let (kargv, dir) ← execPrepare pageDirectory task.cr3 (min argc.toNat maxTaskArgs) argv
      let span := imageSpan segments
      if span.1 ≥ span.2 then return none
      else do
        let (stack, sp) ← execBuild dir segments task.stackBase entry kargv
        pagingFreeDirectory pageDirectory task.cr3
        setSaved dir entry r
        return some ⟨task.tcb, sp, stack, dir, span.1, span.2⟩

/-! ## Fork -/

/-- What is stored in the child's task control block. -/
structure Child where
  cr3 : ℕ
  esp : ℕ

/-- `fork_current` (lines 510–554) for a task that is not the idle task: `cr3` is
    its directory, `r` the address of the frame saved by `int 0x80`, in the
    address space of the task. It accesses the heap as `schedulerExecReplace` does. -/
def forkCurrent (pageDirectory cr3 r : ℕ) : Kernel Child := do
  let dir ← pagingCloneDirectory pageDirectory cr3
  let _ ← kmalloc tcbSize
  -- `&r->eip` is 36 bytes behind `r`
  let userEsp := (r + 36 + 12) % 2 ^ 32
  let frameVaddr := (userEsp + 2 ^ 32 - 48) % 2 ^ 32
  let pde ← readWord (dir + 4 * (frameVaddr >>> 22))
  let pte ← readWord ((pde &&& 0xFFFFF000) + 4 * ((frameVaddr >>> 12) &&& 0x3FF))
  let childFrame := (pte &&& 0xFFFFF000) + (frameVaddr &&& 0xFFF)
  setMem fun m => store m childFrame (bytesVirtual m cr3 r 48)
  writeWord (childFrame + 24) 0
  return ⟨dir, childFrame⟩

/-- The registers when a task goes on. -/
structure Context where
  edi : ℕ
  esi : ℕ
  ebp : ℕ
  edx : ℕ
  ecx : ℕ
  ebx : ℕ
  eax : ℕ
  eip : ℕ
  cs : ℕ
  eflags : ℕ
  esp : ℕ
  deriving DecidableEq

/-- The end of `syscall_handler` (`idt.asm`, lines 47–51) under `cr3`: seven
    registers are popped, two words skipped, and `iret` pops three. -/
def resume (m : ℕ → UInt8) (cr3 esp : ℕ) : Context :=
  let word (k : ℕ) : ℕ := leValue (bytesVirtual m cr3 (esp + 4 * k) 4)
  ⟨word 0, word 1, word 2, word 3, word 4, word 5, word 6, word 9, word 10, word 11,
    (esp + 48) % 2 ^ 32⟩

end Mboot.Process
