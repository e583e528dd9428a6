import Mboot.Fat16.Model

/-!
# The layout of a volume

Where a FAT16 volume has its FAT and its clusters, in unbounded arithmetic, and what
`read_bytes` returns.

* `readBytes_span`: every read of `read_bytes`, up to 4 GiB.
* `getNextCluster_eq`, `clusterOffset_eq`: in the first 4 GiB of the drive, FAT entries and
  clusters are found where the layout has them.
-/

namespace Mboot.Fat16

open Common

/-! ## The volume layout -/

namespace Volume

/-- Byte position of the first FAT. -/
def fatStart (v : Volume) : ℕ :=
  v.partOffset.toNat + v.bpb.rsvdSecCnt.toNat * v.bpb.bytsPerSec.toNat

/-- Byte position of cluster 2: behind the FATs and the root directory. -/
def dataStart (v : Volume) : ℕ :=
  v.fatStart + v.bpb.numFATs.toNat * v.bpb.fatSz16.toNat * v.bpb.bytsPerSec.toNat +
    v.bpb.rootEntCnt.toNat * 32

/-- Byte position of the FAT entry of cluster `c`. -/
def fatEntryAddr (v : Volume) (c : ℕ) : ℕ := v.fatStart + c * 2

/-- The FAT entry of cluster `c`. -/
def fatEntry (v : Volume) (c : ℕ) : ℕ :=
  (v.disk (v.fatEntryAddr c)).toNat + 256 * (v.disk (v.fatEntryAddr c + 1)).toNat

/-- Byte position of cluster `c`. -/
def clusterAddr (v : Volume) (c : ℕ) : ℕ := v.dataStart + (c - 2) * clusterSize v.bpb

/-- The bytes of cluster `c`. -/
def clusterBytes (v : Volume) (c : ℕ) : List UInt8 :=
  slice v.disk (v.clusterAddr c) (clusterSize v.bpb)

/-- Cluster `c` is a data cluster, and its bytes and its FAT entry lie below
    `2 ^ 32`. -/
structure InRange (v : Volume) (c : ℕ) : Prop where
  two_le : 2 ≤ c
  le : c ≤ 0xFFEF
  data : v.clusterAddr c + clusterSize v.bpb ≤ 2 ^ 32
  entry : v.fatEntryAddr c + 2 ≤ 2 ^ 32

end Volume

/-! ## Reading bytes and FAT entries -/

/-- The number of sectors that hold the `len` bytes from `o` on. -/
def sectorSpan (o len : ℕ) : ℕ := (o + len - 1) / sectorSize - o / sectorSize + 1

/-- The end of what `read_bytes` gets from the drive: the call of `ata_lba_read` narrows
    the number of sectors to eight bits. -/
def transferEnd (o len : ℕ) : ℕ := sectorSize * (o / sectorSize + sectorSpan o len % 2 ^ 8)

/-- `read_bytes` returns the bytes asked for up to `transferEnd` and zeros from there on,
    also when the range ends behind `2 ^ 32`. -/
theorem readBytes_span (disk : ℕ → UInt8) {o len : ℕ} (h0 : 0 < len) (ho : o < 2 ^ 32)
    (hspan : sectorSpan o len < 2 ^ 23) :
    readBytes disk o len =
      some (slice (fun i => if i < transferEnd o len then disk i else 0) o len) := by
  unfold sectorSpan sectorSize at hspan
  unfold transferEnd sectorSpan
  unfold readBytes ataLbaRead sectorSize
  dsimp only
  generalize hn : (o + len - 1) / 512 - o / 512 + 1 = n at hspan
  -- where the end of the range wraps, the number of sectors wraps with it
  generalize hk : ((o + len + (2 ^ 32 - 1)) % 2 ^ 32 / 512 + 2 ^ 32 - o / 512 + 1) % 2 ^ 32 = k
  have hcount : k % 2 ^ 8 = n % 2 ^ 8 := by omega
  have hsize : k * 512 % 2 ^ 32 = 512 * n := by omega
  have hlba : o / 512 % 2 ^ 28 = o / 512 := by omega
  have hread : 512 * (n % 2 ^ 8) ≤ 512 * n := by omega
  have hfits : o % 512 + len ≤ 512 * n := by omega
  -- the sectors read, with the zeros of the fresh buffer behind them
  rw [hlba, hsize, hcount, length_slice, List.length_replicate, if_pos ⟨hread, hfits⟩,
    List.drop_replicate, slice_append_replicate, Nat.add_sub_cancel' hread,
    take_drop_slice _ hfits, show 512 * (o / 512) + o % 512 = o by omega,
    show 512 * (o / 512) + 512 * (n % 2 ^ 8) = 512 * (o / 512 + n % 2 ^ 8) by ring]

theorem le_transferEnd {o len : ℕ} (h0 : 0 < len) (hspan : sectorSpan o len ≤ 255) :
    o + len ≤ transferEnd o len := by
  unfold sectorSpan sectorSize at hspan
  unfold transferEnd sectorSpan sectorSize
  omega

/-- A read of at most 255 sectors that starts below `2 ^ 32` returns the bytes asked
    for. -/
theorem readBytes_sectors (disk : ℕ → UInt8) {p len : ℕ} (h0 : 0 < len)
    (hmax : p % 512 + len ≤ 255 * 512) (hp : p < 2 ^ 32) :
    readBytes disk p len = some (slice disk p len) := by
  have hspan : sectorSpan p len ≤ 255 := by
    unfold sectorSpan sectorSize
    omega
  rw [readBytes_span disk h0 hp (by omega)]
  congr 1
  apply slice_congr
  intro i hi
  have hle := le_transferEnd h0 hspan
  rw [if_pos (by omega)]

/-- Up to `2 ^ 16` bytes take at most 129 sectors. -/
theorem readBytes_eq (disk : ℕ → UInt8) {p len : ℕ} (h0 : 0 < len) (hmax : len ≤ 2 ^ 16)
    (hend : p + len ≤ 2 ^ 32) : readBytes disk p len = some (slice disk p len) :=
  readBytes_sectors disk h0 (by omega) (by omega)

theorem bpbFatAddr_eq {v : Volume} {c : ℕ} (h : v.InRange c) :
    v.partOffset.toNat + bpbFatAddr v.bpb = v.fatStart := by
  have hentry := h.entry
  unfold Volume.fatEntryAddr Volume.fatStart at hentry
  unfold bpbFatAddr Volume.fatStart
  rw [Nat.mod_eq_of_lt (by omega)]

/-- `get_next_cluster` returns the FAT entry. -/
theorem getNextCluster_eq {v : Volume} {c : ℕ} (h : v.InRange c) :
    getNextCluster v c = some (v.fatEntry c) := by
  have hentry := h.entry
  have haddr : (v.partOffset.toNat + bpbFatAddr v.bpb + c * 2) % 2 ^ 32 = v.fatEntryAddr c := by
    rw [bpbFatAddr_eq h]
    exact Nat.mod_eq_of_lt (by unfold Volume.fatEntryAddr at hentry; omega)
  unfold getNextCluster
  rw [haddr, readBytes_eq v.disk (by decide) (by decide) hentry]
  rfl

/-- `cluster_offset` is the position of the cluster. -/
theorem clusterOffset_eq {v : Volume} {c : ℕ} (hcs : 0 < clusterSize v.bpb) (h : v.InRange c) :
    clusterOffset v c = v.clusterAddr c := by
  obtain ⟨k, rfl⟩ : ∃ k, c = k + 2 := ⟨c - 2, by have := h.two_le; omega⟩
  have hdata := h.data
  unfold Volume.clusterAddr Volume.dataStart Volume.fatStart at hdata ⊢
  unfold clusterOffset bpbDataAddr bpbRootAddr bpbFatAddr
  rw [Nat.add_sub_cancel] at hdata ⊢
  generalize v.bpb.rsvdSecCnt.toNat * v.bpb.bytsPerSec.toNat = a at hdata ⊢
  generalize v.bpb.numFATs.toNat * v.bpb.fatSz16.toNat * v.bpb.bytsPerSec.toNat = b at hdata ⊢
  have hk : (((k + 2 : ℕ) : ℤ) - 2) * (clusterSize v.bpb : ℤ) = ((k * clusterSize v.bpb : ℕ) : ℤ) := by
    push_cast
    ring
  rw [hk]
  generalize k * clusterSize v.bpb = d at hdata ⊢
  omega

/-- A volume of one-sector clusters whose FAT links cluster 2 to cluster 3. -/
def twoClusterVolume : Volume where
  disk := fun a => if a = 512 + 4 then 3 else if a = 1536 + 511 then 7 else 0
  bpb := { bytsPerSec := 512, secPerClus := 1, rsvdSecCnt := 1, numFATs := 1, rootEntCnt := 16,
           fatSz16 := 1 }
  partOffset := 0

/-- The table of open files at boot. -/
def noFiles : OpenFiles := fun _ =>
  { startCluster := 0, size := 0, offset := 0, used := false, refs := 0 }

end Mboot.Fat16
