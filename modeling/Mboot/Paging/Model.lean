import Mboot.Heap.Client

/-!
# Page directories

Model of `paging_init`, `paging_create_directory`, `paging_map_page`,
`paging_clone_directory` and `paging_free_directory` (`stage2/paging.c`, lines
41–159) over the heap that they allocate from, and of the translation that the
processor makes with the tables they build.

The code reaches a physical address through the identity mapping, so memory is
addressed by its physical address. `page_directory`, the directory of the kernel,
is an argument here.
-/

namespace Mboot.Paging

open Common
open Heap (Kernel alignUpUintptr)

abbrev pagePresent : ℕ := 0x1
abbrev pageWritable : ℕ := 0x2
abbrev pageUser : ℕ := 0x4
abbrev pageSize4MB : ℕ := 0x80
abbrev pageSize : ℕ := 4096
abbrev fourMiB : ℕ := 0x400000

/-! ## Steps on the memory -/

def kmalloc (bytes : ℕ) : Kernel ℕ := fun h => Heap.kmalloc h bytes

/-- A change of the memory. -/
def setMem (f : (ℕ → UInt8) → ℕ → UInt8) : Kernel PUnit := modify fun h => { h with mem := f h.mem }

/-- `*(uint32_t *)a`. -/
def readWord (a : ℕ) : Kernel ℕ := do return load 4 (← get).mem a

/-- `*(uint32_t *)a = n`. -/
def writeWord (a n : ℕ) : Kernel PUnit := setMem fun m => storeWord 4 m a n

/-! ## `paging.c` -/

/-- `alloc_aligned_page` (lines 68–71). -/
def allocAlignedPage : Kernel ℕ := do
  let raw ← kmalloc (pageSize * 2)
  return alignUpUintptr raw pageSize

/-- The entry of the kernel directory for the `i`-th 4 MiB (lines 50–52). -/
def kernelEntry (i : ℕ) : ℕ :=
  (i * fourMiB &&& 0xFFC00000) ||| pagePresent ||| pageWritable ||| pageSize4MB

/-- `paging_init` (lines 41–60) without the control registers: the kernel
    directory. -/
def pagingInit : Kernel ℕ := do
  let pageDirectory ← allocAlignedPage
  setMem fun m => storeWords 4 m pageDirectory kernelEntry 1024
  return pageDirectory

/-- `paging_create_directory` (lines 73–77). -/
def pagingCreateDirectory (pageDirectory : ℕ) : Kernel ℕ := do
  let dir ← allocAlignedPage
  setMem fun m => copy m dir pageDirectory pageSize
  return dir

/-- Lines 87–100 of `paging_map_page`: the entry of the directory, after a large
    page has been split into a table of 1024 entries. -/
def splitEntry (pd dirIdx : ℕ) : Kernel ℕ := do
  let entry ← readWord (pd + 4 * dirIdx)
  if entry &&& pageSize4MB ≠ 0 then
    let table ← allocAlignedPage
    let physBase := entry &&& 0xFFC00000
    setMem fun m => storeWords 4 m table
      (fun i => (physBase + (i <<< 12)) ||| pagePresent ||| pageWritable) 1024
    writeWord (pd + 4 * dirIdx) ((table &&& 0xFFFFF000) ||| pagePresent ||| pageWritable)
    readWord (pd + 4 * dirIdx)
  else return entry

/-- `paging_map_page` (lines 79–105). -/
def pagingMapPage (pd vaddr paddr flags : ℕ) : Kernel PUnit := do
  let dirIdx := vaddr >>> 22
  let tableIdx := (vaddr >>> 12) &&& 0x3FF
  let entry ← splitEntry pd dirIdx
  writeWord ((entry &&& 0xFFFFF000) + 4 * tableIdx)
    ((paddr &&& 0xFFFFF000) ||| flags ||| pagePresent)

/-- The body of the inner loop of `paging_clone_directory` (lines 119–130). -/
def cloneEntry (newDir table dirIdx tableIdx : ℕ) : Kernel PUnit := do
  let pte ← readWord (table + 4 * tableIdx)
  if pte &&& pagePresent = 0 ∨ pte &&& pageUser = 0 then return ()
  else
    let vaddr := (dirIdx <<< 22) ||| (tableIdx <<< 12)
    let newPage ← allocAlignedPage
    setMem fun m => copy m newPage (pte &&& 0xFFFFF000) pageSize
    pagingMapPage newDir vaddr newPage (pte &&& 0xFFF)

/-- The body of the outer loop (lines 113–131). -/
def cloneTable (parent newDir dirIdx : ℕ) : Kernel PUnit := do
  let entry ← readWord (parent + 4 * dirIdx)
  if entry &&& pagePresent = 0 ∨ entry &&& pageSize4MB ≠ 0 then return ()
  else forM (List.range 1024) (cloneEntry newDir (entry &&& 0xFFFFF000) dirIdx)

/-- `paging_clone_directory` (lines 107–135). -/
def pagingCloneDirectory (pageDirectory parent : ℕ) : Kernel ℕ := do
  let newDir ← pagingCreateDirectory pageDirectory
  forM (List.range 1024) (cloneTable parent newDir)
  return newDir

/-- The body of the inner loop of `paging_free_directory` (lines 150–155). -/
def freeEntry (table tableIdx : ℕ) : Kernel PUnit := do
  let pte ← readWord (table + 4 * tableIdx)
  if pte &&& pagePresent = 0 ∨ pte &&& pageUser = 0 then return ()
  else writeWord (table + 4 * tableIdx) 0

/-- The body of the outer loop (lines 145–157). -/
def freeTable (pageDirectory pd dirIdx : ℕ) : Kernel PUnit := do
  let entry ← readWord (pd + 4 * dirIdx)
  if entry &&& pagePresent = 0 ∨ entry &&& pageSize4MB ≠ 0 then return ()
  else
    forM (List.range 1024) (freeEntry (entry &&& 0xFFFFF000))
    let shared ← readWord (pageDirectory + 4 * dirIdx)
    writeWord (pd + 4 * dirIdx) shared

/-- `paging_free_directory` (lines 139–159). -/
def pagingFreeDirectory (pageDirectory pd : ℕ) : Kernel PUnit :=
  if pd = 0 ∨ pd = pageDirectory then return ()
  else forM (List.range 1024) (freeTable pageDirectory pd)

/-! ## Translation -/

/-- The page frame behind a virtual address, and the low 12 bits of the entry
    that maps it. -/
structure Mapping where
  frame : ℕ
  flags : ℕ
  deriving DecidableEq

/-- What the processor finds for `vaddr` in the tables at `cr3`, with 4 MiB pages
    enabled (`CR4.PSE`, line 54). -/
def walk (m : ℕ → UInt8) (cr3 vaddr : ℕ) : Option Mapping :=
  let pde := load 4 m (cr3 + 4 * (vaddr >>> 22))
  if pde &&& pagePresent = 0 then none
  else if pde &&& pageSize4MB ≠ 0 then
    some ⟨(pde &&& 0xFFC00000) + (vaddr &&& 0x3FF000), pde &&& 0xFFF⟩
  else
    let pte := load 4 m ((pde &&& 0xFFFFF000) + 4 * ((vaddr >>> 12) &&& 0x3FF))
    if pte &&& pagePresent = 0 then none else some ⟨pte &&& 0xFFFFF000, pte &&& 0xFFF⟩

/-- The physical address of `vaddr` under `cr3`. -/
def translate (m : ℕ → UInt8) (cr3 vaddr : ℕ) : Option ℕ :=
  (walk m cr3 vaddr).map fun e => e.frame + vaddr % pageSize

/-- `vaddr` is mapped `PAGE_USER` under `cr3`. -/
def IsUser (m : ℕ → UInt8) (cr3 vaddr : ℕ) : Prop :=
  ∃ e ∈ walk m cr3 vaddr, e.flags &&& pageUser ≠ 0

end Mboot.Paging
