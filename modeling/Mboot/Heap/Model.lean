import Mboot.Common.Bits
import Mboot.Common.Chain
import Mboot.Common.Memory

/-!
# The kernel heap

Model of `kmalloc` and `kfree` (`stage2/mem.c`, lines 113–272). The heap is one
region of memory. It grows by a bump pointer, and freed blocks are kept in a
list ordered by address whose headers lie in the managed memory itself.

A header (`block_header_t`, `mem.h` lines 17–21) has 12 bytes: the size of the
payload at offset 0, the flag `free` at 4, the pointer `next` at 8. All
arithmetic on addresses and sizes is modulo `2 ^ 32`.
-/

namespace Mboot.Heap

open Common

/-- The memory and the globals of `mem.c`. -/
structure HeapState where
  mem : ℕ → UInt8
  freeRam : ℕ
  freeRamEnd : ℕ
  freeListHead : ℕ
  bumpNext : ℕ

/-- `align_up_uintptr` (lines 16–18): `(x + (align - 1)) & ~(align - 1)`. -/
def alignUpUintptr (x align : ℕ) : ℕ := (x + (align - 1)) % 2 ^ 32 &&& (2 ^ 32 - align)

/-! ## Headers -/

/-- `block->size`. -/
def blockSize (mem : ℕ → UInt8) (block : ℕ) : ℕ := load 4 mem block

/-- `block->free`. -/
def blockFree (mem : ℕ → UInt8) (block : ℕ) : Bool := mem (block + 4) != 0

/-- `block->next`. -/
def blockNext (mem : ℕ → UInt8) (block : ℕ) : ℕ := load 4 mem (block + 8)

/-- `block->size = size`. -/
def setSize (mem : ℕ → UInt8) (block size : ℕ) : ℕ → UInt8 := storeWord 4 mem block size

/-- `block->free = free`. -/
def setFree (mem : ℕ → UInt8) (block : ℕ) (free : Bool) : ℕ → UInt8 :=
  store mem (block + 4) [if free then 1 else 0]

/-- `block->next = next`. -/
def setNext (mem : ℕ → UInt8) (block next : ℕ) : ℕ → UInt8 := storeWord 4 mem (block + 8) next

/-- A bound for the loops over the free list: a walk that visits more nodes than
    there are addresses never ends. -/
def listFuel : ℕ := 2 ^ 32

/-! ## The free list -/

/-- `if (prev) prev->next = node; else free_list_head = node;` (lines 120–124,
    161–164 and 252–255). -/
def relink (h : HeapState) (prev node : ℕ) : HeapState :=
  if prev ≠ 0 then { h with mem := setNext h.mem prev node } else { h with freeListHead := node }

/-- `find_free_block_and_remove` (lines 114–133): the block, `0` when none fits.
    `none` stands for a loop that never ends. -/
def findFreeBlockAndRemove (h : HeapState) (size : ℕ) : Option (ℕ × HeapState) :=
  (seek 0 (blockNext h.mem) (fun cur => blockFree h.mem cur && decide (size ≤ blockSize h.mem cur))
    listFuel 0 h.freeListHead).map fun (prev, cur) =>
      if cur = 0 then (0, h)
      else
        let h := relink h prev (blockNext h.mem cur)
        (cur, { h with mem := setFree (setNext h.mem cur 0) cur false })

/-- The loop over the ordered list in `try_split_block` (lines 154–164) and
    `kfree` (lines 244–255): link `block` in front of the first node that is not
    below it. Returns the node before it, too. -/
def linkSorted (h : HeapState) (block : ℕ) : Option (ℕ × HeapState) :=
  (seek 0 (blockNext h.mem) (fun cur => decide (block ≤ cur)) listFuel 0 h.freeListHead).map
    fun (prev, cur) => (prev, relink { h with mem := setNext h.mem block cur } prev block)

/-- `try_split_block` (lines 137–165). -/
def trySplitBlock (h : HeapState) (block want : ℕ) : Option HeapState :=
  let size := blockSize h.mem block
  if size ≤ (want + 12 + 16) % 2 ^ 32 then some h
  else
    let newHdr := (block + 12 + want) % 2 ^ 32
    let mem := setSize h.mem newHdr ((size + 2 ^ 33 - want - 12) % 2 ^ 32)
    let mem := setNext (setFree mem newHdr true) newHdr 0
    let mem := setSize mem block want
    (linkSorted { h with mem := mem } newHdr).map Prod.snd

/-- The end of `kmalloc` (lines 191–210): extend the heap. `none` stands for the
    `HALT` when the region is used up. -/
def bumpAlloc (h : HeapState) (want : ℕ) : Option (ℕ × HeapState) :=
  let hdr := alignUpUintptr h.bumpNext 8
  let payload := (hdr + 12) % 2 ^ 32
  let newBump := (payload + want) % 2 ^ 32
  if newBump > h.freeRamEnd then none
  else
    let mem := setNext (setFree (setSize h.mem hdr want) hdr false) hdr 0
    some (payload, { h with mem := fill mem payload 0 want, bumpNext := newBump })

/-- Lines 177–179 of `kmalloc`. -/
def startBump (h : HeapState) : HeapState :=
  if h.bumpNext = 0 then { h with bumpNext := h.freeRam } else h

/-- `kmalloc` (lines 167–211): the pointer returned and the heap afterwards. -/
def kmalloc (h : HeapState) (bytes : ℕ) : Option (ℕ × HeapState) :=
  if bytes = 0 then some (0, h)
  else
    let want := alignUpUintptr bytes 8
    match findFreeBlockAndRemove (startBump h) want with
    | none => none
    | some (found, h) =>
      if found ≠ 0 then
        (trySplitBlock h found want).map fun h =>
          let payload := (found + 12) % 2 ^ 32
          (payload, { h with mem := fill h.mem payload 0 want })
      else bumpAlloc h want

/-- `try_coalesce_adjacent` (lines 214–222). -/
def tryCoalesceAdjacent (mem : ℕ → UInt8) (a b : ℕ) : Bool × (ℕ → UInt8) :=
  if (a + 12 + blockSize mem a) % 2 ^ 32 = b then
    let mem := setSize mem a ((blockSize mem a + 12 + blockSize mem b) % 2 ^ 32)
    (true, setNext mem a (blockNext mem b))
  else (false, mem)

/-- Lines 257–267 of `kfree`: find the node before `block` again and join the
    two. Returns the node that now holds `block`. -/
def coalescePrev (h : HeapState) (prev block : ℕ) : Option (ℕ × HeapState) :=
  if prev = 0 then some (block, h)
  else
    (seek 0 (blockNext h.mem) (fun scan => decide (block ≤ scan)) listFuel 0 h.freeListHead).map
      fun (scanPrev, _) =>
        if scanPrev = 0 then (block, h)
        else
          match tryCoalesceAdjacent h.mem scanPrev block with
          | (true, mem) => (scanPrev, { h with mem := mem })
          | (false, mem) => (block, { h with mem := mem })

/-- Lines 269–271 of `kfree`: join with the node behind. -/
def coalesceNext (h : HeapState) (block : ℕ) : HeapState :=
  if blockNext h.mem block = 0 then h
  else { h with mem := (tryCoalesceAdjacent h.mem block (blockNext h.mem block)).2 }

/-- `kfree` (lines 224–272). -/
def kfree (h : HeapState) (loc : ℕ) : Option HeapState :=
  if loc = 0 then some h
  else
    let block := (loc + 2 ^ 32 - 12) % 2 ^ 32
    if block < h.freeRam ∨ block ≥ h.freeRamEnd then some h
    else do
      let mem := setNext (setFree h.mem block true) block 0
      let (prev, h) ← linkSorted { h with mem := mem } block
      let (block, h) ← coalescePrev h prev block
      some (coalesceNext h block)

end Mboot.Heap
