import Mboot.Fat16.Volume

/-!
# The sectors a volume is read from

`fat16_init`, and the sectors that `read_bytes` asks the drive for.

* `readBytes_exact_iff`: a read is exact if and only if it spans at most 255 sectors,
  or what is not transferred is zero on the drive as well.
* `requested_sectors_iff`: byte offsets are kept in 32 bits although the drive has
  `2 ^ 28` sectors of 512 bytes, so the sectors of a cluster and of its FAT entry are
  the right ones if and only if they are among the first `2 ^ 23`.
-/

namespace Mboot.Fat16

open Common

/-! ## Reads of any length -/

/-- The enclosing sectors have `2 ^ 32` bytes: the size of the buffer wraps to 0. -/
theorem readBytes_span_max (disk : ℕ → UInt8) {o len : ℕ} (h0 : 0 < len)
    (hend : o + len ≤ 2 ^ 32) (hspan : 2 ^ 23 ≤ sectorSpan o len) :
    readBytes disk o len = none := by
  unfold sectorSpan sectorSize at hspan
  unfold readBytes sectorSize
  dsimp only
  have hlast : (o + len + (2 ^ 32 - 1)) % 2 ^ 32 = o + len - 1 := by omega
  have hsize : ((o + len - 1) / 512 + 2 ^ 32 - o / 512 + 1) % 2 ^ 32 * 512 % 2 ^ 32 = 0 := by
    omega
  rw [hlast, hsize, List.length_replicate, if_neg (by omega)]

/-- `read_bytes` fills its buffer with the bytes asked for if and only if the sectors
    around them are at most 255, or the drive holds zeros behind the sectors that are
    transferred. -/
theorem readBytes_exact_iff (disk : ℕ → UInt8) {o len : ℕ} (h0 : 0 < len)
    (hend : o + len ≤ 2 ^ 32) :
    readBytes disk o len = some (slice disk o len) ↔
      sectorSpan o len ≤ 255 ∨
        sectorSpan o len < 2 ^ 23 ∧
          ∀ i, o ≤ i → i < o + len → transferEnd o len ≤ i → disk i = 0 := by
  by_cases hspan : sectorSpan o len < 2 ^ 23
  · rw [readBytes_span disk h0 (by omega) hspan, Option.some_inj, slice_inj]
    constructor
    · intro h
      right
      refine ⟨hspan, ?_⟩
      intro i hi hlt htr
      have hcell := h (i - o) (by omega)
      rw [Nat.add_sub_cancel' hi, if_neg (by omega)] at hcell
      exact hcell.symm
    · rintro (h255 | ⟨-, hzero⟩) i hi
      · have hle := le_transferEnd h0 h255
        rw [if_pos (by omega)]
      · by_cases htr : o + i < transferEnd o len
        · rw [if_pos htr]
        · rw [if_neg htr, hzero (o + i) (by omega) (by omega) (by omega)]
  · rw [readBytes_span_max disk h0 hend (by omega)]
    constructor
    · intro h
      cases h
    · rintro (h255 | ⟨hlt, -⟩)
      · omega
      · exact absurd hlt hspan

theorem readBytes_across_two_sectors :
    readBytes UInt8.ofNat 511 2 = some (slice UInt8.ofNat 511 2) :=
  (readBytes_exact_iff UInt8.ofNat (by decide) (by decide)).mpr (.inl (by decide))

/-- A root directory of 4096 entries takes 256 sectors, of which none is read. -/
theorem readBytes_root_of_4096 :
    readBytes (fun _ => 0xE5) 0x4200 (4096 * 32) ≠
      some (slice (fun _ => 0xE5) 0x4200 (4096 * 32)) := by
  have hspan : sectorSpan 0x4200 (4096 * 32) = 256 := by decide
  have htr : transferEnd 0x4200 (4096 * 32) = 0x4200 := by decide
  rw [readBytes_span _ (by decide) (by decide) (by rw [hspan]; decide), htr, ne_eq,
    Option.some_inj, slice_inj]
  intro h
  have hfirst := h 0 (by decide)
  rw [if_neg (by decide)] at hfirst
  exact absurd hfirst (by decide)

/-! ## Mounting -/

/-- The little-endian 16-bit field at offset `k`. -/
def leWord (buf : List UInt8) (k : ℕ) : ℕ :=
  (buf.getD k 0).toNat + 256 * (buf.getD (k + 1) 0).toNat

/-- The little-endian 32-bit field at offset `k`. -/
def leDword (buf : List UInt8) (k : ℕ) : ℕ := leWord buf k + 2 ^ 16 * leWord buf (k + 2)

/-- The partition types that `fat16_init` recognises (line 423). -/
def isFat16Type (type : UInt8) : Bool := type = 0x04 || type = 0x06 || type = 0x0E

/-- `start_lba` after the loop over the partition entries (lines 419–427). -/
def fat16StartLba (mbr : List UInt8) : ℕ :=
  match (List.range 4).find? fun i => isFat16Type (mbr.getD (446 + i * 16 + 4) 0) with
  | none => 0
  | some i => leDword mbr (446 + i * 16 + 8)

/-- The fields of `Bpb` in a boot sector (`BPB_t`, inc/fat16.h, is packed). -/
def bpbOf (sector0 : List UInt8) : Bpb where
  bytsPerSec := UInt16.ofNat (leWord sector0 11)
  secPerClus := sector0.getD 13 0
  rsvdSecCnt := UInt16.ofNat (leWord sector0 14)
  numFATs := sector0.getD 16 0
  rootEntCnt := UInt16.ofNat (leWord sector0 17)
  fatSz16 := UInt16.ofNat (leWord sector0 22)

/-- `fat16_init` (lines 405–459): the volume it mounts, if there is one. The table of
    open files, which it clears, is not part of the volume. -/
def fat16Init (disk : ℕ → UInt8) : Option (Option Volume) := do
  let mbr ← readBytes disk 0 sectorSize
  let startLba := fat16StartLba mbr
  if startLba = 0 then return none
  let partOffset := startLba * sectorSize % 2 ^ 32
  let sector0 ← readBytes disk partOffset sectorSize
  return some { disk := disk, bpb := bpbOf sector0, partOffset := UInt32.ofNat partOffset }

/-- The start of the partition that `fat16_init` chooses. -/
def partitionStart (disk : ℕ → UInt8) : ℕ := fat16StartLba (slice disk 0 512)

theorem readBytes_sector (disk : ℕ → UInt8) (w : ℕ) (hw : w < 2 ^ 23) :
    readBytes disk (512 * w) 512 = some (slice disk (512 * w) 512) :=
  readBytes_sectors disk (by norm_num) (by omega) (by omega)

/-- The boot sector is looked for at the start of the partition modulo `2 ^ 23`. -/
theorem fat16Init_eq {disk : ℕ → UInt8} (hstart : partitionStart disk ≠ 0) :
    fat16Init disk = some (some
      { disk := disk
        bpb := bpbOf (slice disk (512 * (partitionStart disk % 2 ^ 23)) 512)
        partOffset := UInt32.ofNat (512 * (partitionStart disk % 2 ^ 23)) }) := by
  have hoff : partitionStart disk * 512 % 2 ^ 32 = 512 * (partitionStart disk % 2 ^ 23) := by omega
  unfold partitionStart at hstart hoff ⊢
  have hboot := readBytes_sector disk (fat16StartLba (slice disk 0 512) % 2 ^ 23)
    (Nat.mod_lt _ (by norm_num))
  unfold fat16Init sectorSize
  simp only [readBytes_sector disk 0 (by norm_num), Option.bind_eq_bind, Option.bind_some,
    if_neg hstart, hoff, hboot, Option.pure_def]

/-! ## The sectors asked for -/

/-- The sectors that `ata_lba_read` transfers. -/
def ataSectors (lba sectorCount : ℕ) : List ℕ :=
  (List.range (sectorCount % 2 ^ 8)).map fun s => lba % 2 ^ 28 + s

/-- The sectors that `read_bytes` asks for (lines 20, 21 and 26). -/
def readSectors (partOffset len : ℕ) : List ℕ :=
  let startLba := partOffset / sectorSize
  let endLba := (partOffset + len + (2 ^ 32 - 1)) % 2 ^ 32 / sectorSize
  ataSectors startLba ((endLba + 2 ^ 32 - startLba + 1) % 2 ^ 32)

/-- The sectors that `fat16_read` asks for to read cluster `c` (line 375). -/
def clusterSectors (v : Volume) (c : ℕ) : List ℕ :=
  readSectors (clusterOffset v c) (clusterSize v.bpb)

/-- The sectors that `get_next_cluster` asks for (line 51). -/
def entrySectors (v : Volume) (c : ℕ) : List ℕ :=
  readSectors ((v.partOffset.toNat + bpbFatAddr v.bpb + c * 2) % 2 ^ 32) 2

theorem ataLbaRead_eq_sectors (disk : ℕ → UInt8) (lba sectorCount : ℕ) :
    ataLbaRead disk lba sectorCount =
      (ataSectors lba sectorCount).flatMap fun s => slice disk (sectorSize * s) sectorSize := by
  unfold ataLbaRead ataSectors
  induction sectorCount % 2 ^ 8 with
  | zero => rfl
  | succ n ih =>
    rw [Nat.mul_succ, slice_add, ih, List.range_succ, List.map_append, List.flatMap_append,
      ← Nat.mul_add]
    simp

/-- What `read_bytes` returns is cut out of the sectors it asks for, with zeros behind
    them. -/
theorem readBytes_eq_sectors {disk : ℕ → UInt8} {p len : ℕ} {bytes : List UInt8}
    (h : readBytes disk p len = some bytes) :
    ∃ zeros, bytes = ((((readSectors p len).flatMap fun s =>
      slice disk (sectorSize * s) sectorSize) ++ List.replicate zeros 0).drop
        (p % sectorSize)).take len := by
  unfold readBytes at h
  dsimp only at h
  split at h
  · rw [List.drop_replicate, ataLbaRead_eq_sectors] at h
    exact ⟨_, (Option.some.inj h).symm⟩
  · cases h

/-- `n` whole sectors from sector `w` on. -/
theorem readSectors_aligned {w n : ℕ} (hw : w < 2 ^ 23) (h0 : 0 < n) (hn : n < 2 ^ 8) :
    readSectors (512 * w) (512 * n) = (List.range n).map (w + ·) := by
  unfold readSectors ataSectors sectorSize
  dsimp only
  have hlba : 512 * w / 512 = w := by omega
  -- past `2 ^ 32` the last sector wraps around, and the count with it
  have hcount : ((512 * w + 512 * n + (2 ^ 32 - 1)) % 2 ^ 32 / 512 + 2 ^ 32 - w + 1) % 2 ^ 32 %
      2 ^ 8 = n := by omega
  rw [hlba, hcount, Nat.mod_eq_of_lt (by omega : w < 2 ^ 28)]

/-- Two bytes at an even offset are in one sector. -/
theorem readSectors_pair {p : ℕ} (hp : p < 2 ^ 32) (heven : p % 2 = 0) :
    readSectors p 2 = [p / 512] := by
  unfold readSectors ataSectors sectorSize
  dsimp only
  have hcount : ((p + 2 + (2 ^ 32 - 1)) % 2 ^ 32 / 512 + 2 ^ 32 - p / 512 + 1) % 2 ^ 32 % 2 ^ 8 =
      1 := by omega
  rw [hcount, Nat.mod_eq_of_lt (by omega : p / 512 < 2 ^ 28)]
  rfl

/-- A 32-bit offset reaches the first `2 ^ 23` sectors only. -/
theorem readSectors_first_lt {p len s : ℕ} {rest : List ℕ} (hp : p < 2 ^ 32)
    (h : readSectors p len = s :: rest) : s < 2 ^ 23 := by
  unfold readSectors ataSectors sectorSize at h
  dsimp only at h
  generalize ((p + len + (2 ^ 32 - 1)) % 2 ^ 32 / 512 + 2 ^ 32 - p / 512 + 1) % 2 ^ 32 %
    2 ^ 8 = n at h
  cases n with
  | zero => cases h
  | succ n =>
    rw [List.range_succ_eq_map, List.map_cons, List.cons.injEq] at h
    omega

/-! ## The layout in sectors -/

/-- A BPB of a FAT16 volume with sectors of 512 bytes and a root directory of whole
    sectors. -/
structure Bpb.IsFat16 (bpb : Bpb) : Prop where
  bytsPerSec : bpb.bytsPerSec = 512
  secPerClus : 0 < bpb.secPerClus.toNat
  rootEntCnt : 16 ∣ bpb.rootEntCnt.toNat

/-- The boot sector of the partition. -/
def bootBpb (disk : ℕ → UInt8) : Bpb := bpbOf (slice disk (512 * partitionStart disk) 512)

/-- The first sector of cluster `c`. -/
def dataSector (disk : ℕ → UInt8) (c : ℕ) : ℕ :=
  partitionStart disk + (bootBpb disk).rsvdSecCnt.toNat +
    (bootBpb disk).numFATs.toNat * (bootBpb disk).fatSz16.toNat +
    (bootBpb disk).rootEntCnt.toNat / 16 + (c - 2) * (bootBpb disk).secPerClus.toNat

/-- The sector of the FAT entry of cluster `c`. -/
def fatSector (disk : ℕ → UInt8) (c : ℕ) : ℕ :=
  partitionStart disk + (bootBpb disk).rsvdSecCnt.toNat + 2 * c / 512

/-- The sectors in the partition, as the boot sector has them in `TotSec16` or
    `TotSec32`. -/
def totalSectors (disk : ℕ → UInt8) : ℕ :=
  let sector0 := slice disk (512 * partitionStart disk) 512
  if leWord sector0 19 = 0 then leDword sector0 32 else leWord sector0 19

section Layout

variable {v : Volume} {disk : ℕ → UInt8} {c : ℕ}

/-- What `fat16_init` has mounted when the partition starts below `2 ^ 23`. -/
theorem fat16Init_below (hinit : fat16Init disk = some (some v))
    (hlt : partitionStart disk < 2 ^ 23) :
    v.bpb = bootBpb disk ∧ v.partOffset.toNat = 512 * partitionStart disk := by
  have hstart : partitionStart disk ≠ 0 := by
    intro h0
    have hmbr := readBytes_sector disk 0 (by norm_num)
    unfold partitionStart at h0
    unfold fat16Init sectorSize at hinit
    simp [hmbr, h0] at hinit
  rw [fat16Init_eq hstart, Nat.mod_eq_of_lt hlt, Option.some_inj, Option.some_inj] at hinit
  have hoff : (UInt32.ofNat (512 * partitionStart disk)).toNat = 512 * partitionStart disk := by
    rw [UInt32.toNat_ofNat', Nat.mod_eq_of_lt (by omega)]
  rw [← hinit]
  exact ⟨rfl, hoff⟩

/-- `cluster_offset` of cluster `k + 2` in the first 4 GiB of the drive. -/
theorem clusterOffset_sector (hfat : v.bpb.IsFat16) {start k : ℕ}
    (hoff : v.partOffset.toNat = 512 * start)
    (hlt : start + v.bpb.rsvdSecCnt.toNat + v.bpb.numFATs.toNat * v.bpb.fatSz16.toNat +
      v.bpb.rootEntCnt.toNat / 16 + k * v.bpb.secPerClus.toNat < 2 ^ 23) :
    clusterOffset v (k + 2) = 512 * (start + v.bpb.rsvdSecCnt.toNat +
      v.bpb.numFATs.toNat * v.bpb.fatSz16.toNat + v.bpb.rootEntCnt.toNat / 16 +
        k * v.bpb.secPerClus.toNat) := by
  obtain ⟨e, he⟩ := hfat.rootEntCnt
  unfold clusterOffset bpbDataAddr bpbRootAddr bpbFatAddr clusterSize
  rw [hoff, hfat.bytsPerSec, show (512 : UInt16).toNat = 512 from rfl]
  have hk : (((k + 2 : ℕ) : ℤ) - 2) * ((512 * v.bpb.secPerClus.toNat : ℕ) : ℤ) =
      ((512 * (k * v.bpb.secPerClus.toNat) : ℕ) : ℤ) := by
    push_cast
    ring
  rw [hk]
  generalize v.bpb.numFATs.toNat * v.bpb.fatSz16.toNat = a at hlt ⊢
  generalize k * v.bpb.secPerClus.toNat = b at hlt ⊢
  omega

theorem clusterSectors_below (hinit : fat16Init disk = some (some v))
    (hfat : (bootBpb disk).IsFat16) (hc : 2 ≤ c) (hlt : dataSector disk c < 2 ^ 23) :
    clusterSectors v c =
      (List.range (bootBpb disk).secPerClus.toNat).map (dataSector disk c + ·) := by
  have hstart : partitionStart disk ≤ dataSector disk c := by
    unfold dataSector
    omega
  obtain ⟨hbpb, hoff⟩ := fat16Init_below hinit (by omega)
  have hsize : clusterSize v.bpb = 512 * (bootBpb disk).secPerClus.toNat := by
    rw [clusterSize, hbpb, hfat.bytsPerSec]
    rfl
  obtain ⟨k, rfl⟩ : ∃ k, c = k + 2 := ⟨c - 2, by omega⟩
  have haddr : clusterOffset v (k + 2) = 512 * dataSector disk (k + 2) := by
    rw [← hbpb] at hfat
    unfold dataSector at hlt ⊢
    rw [Nat.add_sub_cancel, ← hbpb] at hlt ⊢
    exact clusterOffset_sector hfat hoff hlt
  rw [clusterSectors, haddr, hsize, readSectors_aligned hlt hfat.secPerClus (UInt8.toNat_lt _)]

theorem entrySectors_below (hinit : fat16Init disk = some (some v))
    (hfat : (bootBpb disk).IsFat16) (hlt : fatSector disk c < 2 ^ 23) :
    entrySectors v c = [fatSector disk c] := by
  unfold fatSector at hlt ⊢
  obtain ⟨hbpb, hoff⟩ := fat16Init_below hinit (by omega)
  have haddr : v.partOffset.toNat + bpbFatAddr v.bpb + c * 2 =
      512 * (partitionStart disk + (bootBpb disk).rsvdSecCnt.toNat) + c * 2 := by
    have hrsvd := (bootBpb disk).rsvdSecCnt.toNat_lt
    rw [hoff, hbpb, bpbFatAddr, hfat.bytsPerSec, show (512 : UInt16).toNat = 512 from rfl,
      Nat.mod_eq_of_lt (by omega)]
    ring
  have hdiv : (512 * (partitionStart disk + (bootBpb disk).rsvdSecCnt.toNat) + c * 2) / 512 =
      partitionStart disk + (bootBpb disk).rsvdSecCnt.toNat + 2 * c / 512 := by omega
  rw [entrySectors, haddr, Nat.mod_eq_of_lt (by omega), readSectors_pair (by omega) (by omega),
    hdiv]

/-- For every partition that `fat16_init` accepts and every cluster, the sectors that
    `fat16_read` and `get_next_cluster` ask for are the ones of the layout if and only if
    the layout has them among the first `2 ^ 23`. -/
theorem requested_sectors_iff (hinit : fat16Init disk = some (some v))
    (hfat : (bootBpb disk).IsFat16) (hc : 2 ≤ c) :
    (clusterSectors v c =
        (List.range (bootBpb disk).secPerClus.toNat).map (dataSector disk c + ·) ↔
      dataSector disk c < 2 ^ 23) ∧
    (entrySectors v c = [fatSector disk c] ↔ fatSector disk c < 2 ^ 23) := by
  refine ⟨⟨?_, clusterSectors_below hinit hfat hc⟩, ⟨?_, entrySectors_below hinit hfat⟩⟩
  · intro h
    have hoff : clusterOffset v c < 2 ^ 32 := by
      unfold clusterOffset
      omega
    obtain ⟨n, hn⟩ : ∃ n, (bootBpb disk).secPerClus.toNat = n + 1 :=
      ⟨_, (Nat.succ_pred_eq_of_pos hfat.secPerClus).symm⟩
    rw [clusterSectors, hn, List.range_succ_eq_map, List.map_cons, Nat.add_zero] at h
    exact readSectors_first_lt hoff h
  · intro h
    rw [entrySectors] at h
    exact readSectors_first_lt (Nat.mod_lt _ (by norm_num)) h

end Layout

/-- A drive with one partition, from sector `start` on, and a volume of 4085 clusters of
    one sector in it: a reserved sector, two FATs of 16 sectors and 512 root entries. -/
def onePartition (start : ℕ) (i : ℕ) : UInt8 :=
  if i = 450 then 0x06
  else if 454 ≤ i ∧ i < 458 then UInt8.ofNat (start / 256 ^ (i - 454))
  else match i - 512 * start with
    | 12 => 2
    | 13 => 1
    | 14 => 1
    | 16 => 2
    | 18 => 2
    | 19 => 0x36
    | 20 => 0x10
    | 22 => 16
    | _ => 0

theorem requested_sectors_first_cluster :
    ∃ v, fat16Init (onePartition 2048) = some (some v) ∧
      clusterSectors v 2 = [dataSector (onePartition 2048) 2] ∧
      entrySectors v 2 = [fatSector (onePartition 2048) 2] := by
  have hinit := fat16Init_eq (show partitionStart (onePartition 2048) ≠ 0 by decide +kernel)
  have hfat : (bootBpb (onePartition 2048)).IsFat16 :=
    ⟨by decide +kernel, by decide +kernel, by decide +kernel⟩
  have hone : (bootBpb (onePartition 2048)).secPerClus.toNat = 1 := by decide +kernel
  obtain ⟨hdata, hentry⟩ := requested_sectors_iff hinit hfat (le_refl 2)
  rw [hone, List.range_one, List.map_singleton, Nat.add_zero] at hdata
  exact ⟨_, hinit, hdata.mpr (by decide +kernel), hentry.mpr (by decide +kernel)⟩

/-- Cluster 2 of this partition lies behind the first 4 GiB of the drive: `fat16_read`
    asks for sector 33 in its place. -/
theorem cluster_behind_4GiB :
    ∃ v, fat16Init (onePartition 0x7FFFE0) = some (some v) ∧
      dataSector (onePartition 0x7FFFE0) 2 + 1 ≤
        partitionStart (onePartition 0x7FFFE0) + totalSectors (onePartition 0x7FFFE0) ∧
      dataSector (onePartition 0x7FFFE0) 2 = 2 ^ 23 + 33 ∧ clusterSectors v 2 = [33] := by
  have hinit := fat16Init_eq (show partitionStart (onePartition 0x7FFFE0) ≠ 0 by decide +kernel)
  exact ⟨_, hinit, by decide +kernel, by decide +kernel, by decide +kernel⟩

end Mboot.Fat16
