import Mboot.Common.Slice

/-!
# The FAT16 reader

Model of the part of `stage2/fat16.c` that turns cluster chains into file
bytes, and of the table of open files. All 32-bit arithmetic is written with
its `% 2 ^ 32`.

* The drive is a function from byte positions to bytes, and `ata_lba_read`
  transfers the sectors it is asked for.
* A result of `none` stands for undefined behaviour of the C code: a division
  by zero, a copy that leaves its buffer, a loop that does not end. The
  temporary buffers have a non-zero size, for which `kmalloc` does not return
  `NULL`, so the failure branches behind `kmalloc` are not modelled.
* The `path` of an open file is only printed and is left out.
-/

namespace Mboot.Fat16

open Common

/-- `SECTOR_SIZE` (inc/fat16.h). -/
abbrev sectorSize : ℕ := 512

/-- `MAX_OPEN_FILES` (inc/fat16.h). -/
abbrev maxOpenFiles : ℕ := 8

/-- The fields of `BPB_t` (inc/fat16.h) that locate the FAT and the clusters. -/
structure Bpb where
  bytsPerSec : UInt16
  secPerClus : UInt8
  rsvdSecCnt : UInt16
  numFATs : UInt8
  rootEntCnt : UInt16
  fatSz16 : UInt16

/-- A mounted volume: the drive, `g_bpb` and `g_part_offset`. -/
structure Volume where
  disk : ℕ → UInt8
  bpb : Bpb
  partOffset : UInt32

/-- The fields of `dir_t` (inc/fat16.h) that `fat16_open` reads. -/
structure DirEntry where
  fstClusLO : UInt16
  fileSize : UInt32

/-- `fat16_file_t` (inc/fat16.h). -/
structure File where
  startCluster : ℕ
  size : ℕ
  offset : ℕ
  used : Bool
  refs : ℕ

/-- `open_files` (fat16.c line 13). -/
abbrev OpenFiles := Fin maxOpenFiles → File

/-! ## Reading the drive -/

/-- `ata_lba_read` (dev/disk.c): `sector_count` is a `uint8_t` and 28 bits of
    the LBA are programmed. -/
def ataLbaRead (disk : ℕ → UInt8) (lba sectorCount : ℕ) : List UInt8 :=
  slice disk (sectorSize * (lba % 2 ^ 28)) (sectorSize * (sectorCount % 2 ^ 8))

/-- `read_bytes` (fat16.c lines 15–30). The temporary buffer is zeroed by
    `kmalloc`, then overwritten with the sectors read. -/
def readBytes (disk : ℕ → UInt8) (partOffset len : ℕ) : Option (List UInt8) :=
  let startLba := partOffset / sectorSize
  let endLba := (partOffset + len + (2 ^ 32 - 1)) % 2 ^ 32 / sectorSize
  let sectors := (endLba + 2 ^ 32 - startLba + 1) % 2 ^ 32
  let tmp : List UInt8 := List.replicate (sectors * sectorSize % 2 ^ 32) 0
  let read := ataLbaRead disk startLba sectors
  if read.length ≤ tmp.length ∧ partOffset % sectorSize + len ≤ tmp.length then
    some (((read ++ tmp.drop read.length).drop (partOffset % sectorSize)).take len)
  else none

/-! ## Addresses on the volume -/

/-- `BPB_FAT_addr` (lines 32–36). -/
def bpbFatAddr (bpb : Bpb) : ℕ := bpb.rsvdSecCnt.toNat * bpb.bytsPerSec.toNat % 2 ^ 32

/-- `BPB_Root_addr` (lines 38–40). -/
def bpbRootAddr (bpb : Bpb) : ℕ :=
  (bpbFatAddr bpb + bpb.numFATs.toNat * bpb.fatSz16.toNat * bpb.bytsPerSec.toNat) % 2 ^ 32

/-- `BPB_Data_addr` (lines 42–44). -/
def bpbDataAddr (bpb : Bpb) : ℕ := (bpbRootAddr bpb + bpb.rootEntCnt.toNat * 32) % 2 ^ 32

/-- `cluster_size` as `fat16_read` computes it (line 345). -/
def clusterSize (bpb : Bpb) : ℕ := bpb.bytsPerSec.toNat * bpb.secPerClus.toNat

/-- `cluster_offset` (lines 210–213). Clusters 0 and 1 wrap around. -/
def clusterOffset (v : Volume) (cluster : ℕ) : ℕ :=
  ((v.partOffset.toNat + bpbDataAddr v.bpb + ((cluster : ℤ) - 2) * clusterSize v.bpb) %
    2 ^ 32).toNat

/-- `get_next_cluster` (lines 46–53): the little-endian FAT entry of `cluster`. -/
def getNextCluster (v : Volume) (cluster : ℕ) : Option ℕ := do
  let val ← readBytes v.disk ((v.partOffset.toNat + bpbFatAddr v.bpb + cluster * 2) % 2 ^ 32) 2
  match val with
  | [lo, hi] => some (lo.toNat + 256 * hi.toNat)
  | _ => none

/-! ## Open files -/

/-- The test at the head of `fat16_dup`, `fat16_close` and `fat16_read`: the
    slot of a handle in use. -/
def fileOf (files : OpenFiles) (fd : ℤ) : Option (Fin maxOpenFiles) :=
  if h : 0 ≤ fd ∧ fd < maxOpenFiles then
    let i : Fin maxOpenFiles := ⟨fd.toNat, by omega⟩
    if (files i).used then some i else none
  else none

/-- `fat16_open` (lines 277–312) after the directory search: `found` is what
    `find_file_in_dir` returned. The first unused slot is taken. -/
def fat16Open (files : OpenFiles) (found : Option DirEntry) : ℤ × OpenFiles :=
  match found with
  | none => (-1, files)
  | some dir =>
    match (List.finRange maxOpenFiles).find? fun i => !(files i).used with
    | none => (-1, files)
    | some i =>
      (i.val, Function.update files i
        { startCluster := dir.fstClusLO.toNat, size := dir.fileSize.toNat, offset := 0,
          used := true, refs := 1 })

/-- `fat16_dup` (lines 314–320). -/
def fat16Dup (files : OpenFiles) (fd : ℤ) : ℤ × OpenFiles :=
  match fileOf files fd with
  | none => (-1, files)
  | some i =>
    (fd, Function.update files i { files i with refs := ((files i).refs + 1) % 2 ^ 32 })

/-- `fat16_close` (lines 322–333). -/
def fat16Close (files : OpenFiles) (fd : ℤ) : ℤ × OpenFiles :=
  match fileOf files fd with
  | none => (-1, files)
  | some i =>
    let refs := ((files i).refs + (2 ^ 32 - 1)) % 2 ^ 32
    if refs > 0 then (0, Function.update files i { files i with refs := refs })
    else (0, Function.update files i { files i with refs := refs, used := false })

/-! ## Reading -/

/-- The loop of lines 357–361 over the clusters in front of the offset. The
    inner `none` is the early `return -1` at an end-of-chain marker. -/
def skipClusters (v : Volume) : ℕ → ℕ → Option (Option ℕ)
  | 0, cluster => some (some cluster)
  | n + 1, cluster => do
    let next ← getNextCluster v cluster
    if next ≥ 0xFFF8 then some none else skipClusters v n next

/-- The loop of lines 374–390; the result is what it stores at `dst`. Every
    round copies at least one byte, so a fuel above `to_read` is enough. -/
def copyLoop (v : Volume) : ℕ → ℕ → ℕ → ℕ → Option (List UInt8)
  | 0, _, _, _ => none
  | fuel + 1, cluster, offsetInCluster, toRead =>
    if toRead > 0 ∧ cluster < 0xFFF8 then do
      let tmp ← readBytes v.disk (clusterOffset v cluster) (clusterSize v.bpb)
      let copy := clusterSize v.bpb - offsetInCluster
      let copy := if copy > toRead then toRead else copy
      let toRead := toRead - copy
      let next ← if toRead > 0 then getNextCluster v cluster else some cluster
      let rest ← copyLoop v fuel next 0 toRead
      return (tmp.drop offsetInCluster).take copy ++ rest
    else some []

/-- `fat16_read` (lines 335–394): the result, the bytes stored at `buffer` and
    the table of open files afterwards. -/
def fat16Read (v : Volume) (files : OpenFiles) (fd : ℤ) (size : ℕ) :
    Option (ℤ × List UInt8 × OpenFiles) :=
  match fileOf files fd with
  | none => some (-1, [], files)
  | some i => do
    let file := files i
    if size = 0 then return (0, [], files)
    if file.offset ≥ file.size then return (0, [], files)
    let remaining := file.size - file.offset
    let size := if size > remaining then remaining else size
    if clusterSize v.bpb = 0 then none
    let skipped ← skipClusters v (file.offset / clusterSize v.bpb) file.startCluster
    match skipped with
    | none => return (-1, [], files)
    | some cluster =>
      let bytes ← copyLoop v (size + 1) cluster (file.offset % clusterSize v.bpb) size
      return (Int.bmod bytes.length (2 ^ 32), bytes,
        Function.update files i { file with offset := (file.offset + bytes.length) % 2 ^ 32 })

end Mboot.Fat16
