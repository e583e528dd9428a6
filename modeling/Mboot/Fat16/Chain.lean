import Mboot.Fat16.Sectors

/-!
# Reads along an arbitrary chain

`fat16_read` on a FAT with any contents: cyclic, truncated and crossed chains, and
entries that are no cluster of the volume. Byte `j` of a result is byte
`(offset + j) mod cluster_size` of what is read for entry `(offset + j) / cluster_size`
of the chain, and the result ends where the chain or the request does.

* `fat16_read_total`: every call returns, with a count that the file and the request
  bound, and advances the offset by that count.
* `reads_data_region_iff`: when all bytes of a result come from the data region of the
  drive; in the first 4 GiB it is enough that the chain has data clusters only.
* `reads_outside_data_region`: an entry 0 in a chain makes `fat16_read` return the FAT,
  and a cluster behind the first 4 GiB makes it return another sector.
-/

namespace Mboot.Fat16

open Common

/-! ## The chain -/

namespace Volume

/-- The FAT entry that `get_next_cluster` reads for `c`. -/
def next (v : Volume) (c : ℕ) : ℕ := (getNextCluster v c).getD 0

/-- Entry `k` of the chain from `c`. -/
def chainAt (v : Volume) (c k : ℕ) : ℕ := v.next^[k] c

/-- What `fat16_read` has in its buffer after the `read_bytes` for cluster `c`. -/
def block (v : Volume) (c : ℕ) : List UInt8 :=
  (readBytes v.disk (clusterOffset v c) (clusterSize v.bpb)).getD []

@[simp] theorem chainAt_zero (v : Volume) (c : ℕ) : v.chainAt c 0 = c := rfl

theorem chainAt_succ (v : Volume) (c k : ℕ) : v.chainAt c (k + 1) = v.chainAt (v.next c) k :=
  Function.iterate_succ_apply v.next k c

theorem chainAt_add (v : Volume) (c q k : ℕ) :
    v.chainAt (v.chainAt c q) k = v.chainAt c (q + k) := by
  unfold chainAt
  rw [Nat.add_comm, Function.iterate_add_apply]

end Volume

/-! ## Reads of the drive return -/

/-- A read of up to 16 MiB returns wherever it starts. -/
theorem readBytes_small (disk : ℕ → UInt8) {p len : ℕ} (h0 : 0 < len) (hmax : len ≤ 2 ^ 24)
    (hp : p < 2 ^ 32) : readBytes disk p len =
      some (slice (fun i => if i < transferEnd p len then disk i else 0) p len) := by
  refine readBytes_span disk h0 hp ?_
  unfold sectorSpan sectorSize
  omega

theorem clusterSize_le (bpb : Bpb) : clusterSize bpb ≤ 2 ^ 24 := by
  have hsec : bpb.bytsPerSec.toNat ≤ 2 ^ 16 := bpb.bytsPerSec.toNat_lt.le
  have hclus : bpb.secPerClus.toNat ≤ 2 ^ 8 := bpb.secPerClus.toNat_lt.le
  calc bpb.bytsPerSec.toNat * bpb.secPerClus.toNat ≤ 2 ^ 16 * 2 ^ 8 := Nat.mul_le_mul hsec hclus
    _ = 2 ^ 24 := by norm_num

theorem clusterOffset_lt (v : Volume) (c : ℕ) : clusterOffset v c < 2 ^ 32 := by
  unfold clusterOffset
  omega

theorem getNextCluster_next (v : Volume) (c : ℕ) : getNextCluster v c = some (v.next c) := by
  unfold Volume.next getNextCluster
  rw [readBytes_small v.disk two_pos (by norm_num) (Nat.mod_lt _ (by norm_num))]
  rfl

theorem next_eq {v : Volume} {c : ℕ} (h : v.InRange c) : v.next c = v.fatEntry c :=
  Option.some.inj ((getNextCluster_next v c).symm.trans (getNextCluster_eq h))

/-- Nothing is left to read. -/
theorem copyLoop_zero (v : Volume) (fuel cluster off : ℕ) :
    copyLoop v (fuel + 1) cluster off 0 = some [] := by
  rw [copyLoop, if_neg (by omega)]

section Loops

variable {v : Volume}

/-- The request ends inside the cluster. -/
theorem copyLoop_within {c off toRead fuel : ℕ} {bytes : List UInt8} (hc : c < 0xFFF8)
    (hread : readBytes v.disk (clusterOffset v c) (clusterSize v.bpb) = some bytes)
    (hlen : toRead ≤ clusterSize v.bpb - off) (hfuel : toRead < fuel) :
    copyLoop v fuel c off toRead = some ((bytes.drop off).take toRead) := by
  obtain ⟨fuel, rfl⟩ : ∃ f, fuel = f + 1 := ⟨fuel - 1, by omega⟩
  by_cases h0 : toRead = 0
  · rw [h0, copyLoop_zero, List.take_zero]
  · obtain ⟨fuel, rfl⟩ : ∃ f, fuel = f + 1 := ⟨fuel - 1, by omega⟩
    have hcopy : (if clusterSize v.bpb - off > toRead then toRead
        else clusterSize v.bpb - off) = toRead := by
      split_ifs <;> omega
    rw [copyLoop, if_pos ⟨by omega, hc⟩, hread]
    simp [hcopy, copyLoop_zero]

/-- The request goes on in the next cluster. -/
theorem copyLoop_across {c d off toRead fuel : ℕ} {bytes : List UInt8} (hc : c < 0xFFF8)
    (hread : readBytes v.disk (clusterOffset v c) (clusterSize v.bpb) = some bytes)
    (hbytes : bytes.length = clusterSize v.bpb) (hnext : getNextCluster v c = some d)
    (hlen : clusterSize v.bpb - off < toRead) :
    copyLoop v (fuel + 1) c off toRead =
      (copyLoop v fuel d 0 (toRead - (clusterSize v.bpb - off))).map (bytes.drop off ++ ·) := by
  have hcopy : (if clusterSize v.bpb - off > toRead then toRead
      else clusterSize v.bpb - off) = clusterSize v.bpb - off := if_neg (by omega)
  have hleft : 0 < toRead - (clusterSize v.bpb - off) := by omega
  have hall : (bytes.drop off).length ≤ clusterSize v.bpb - off := by
    rw [List.length_drop, hbytes]
  rw [copyLoop, if_pos ⟨by omega, hc⟩, hread]
  simp only [Option.bind_eq_bind, Option.bind_some, hcopy, gt_iff_lt, if_pos hleft, hnext]
  rw [List.take_of_length_le hall, Option.map_eq_bind]
  rfl

variable (hcs : 0 < clusterSize v.bpb)
include hcs

theorem readBytes_block (c : ℕ) :
    readBytes v.disk (clusterOffset v c) (clusterSize v.bpb) = some (v.block c) ∧
      (v.block c).length = clusterSize v.bpb := by
  unfold Volume.block
  rw [readBytes_small v.disk hcs (clusterSize_le v.bpb) (clusterOffset_lt v c)]
  exact ⟨rfl, by rw [Option.getD_some, length_slice]⟩

omit hcs in
/-- The skip loop ends at entry `n` of the chain, unless one of the entries up to
    there is an end-of-chain marker. Entry 0 is not looked at. -/
theorem skipClusters_chain (n c : ℕ) :
    (skipClusters v n c = some (some (v.chainAt c n)) ∧
      ∀ j, 1 ≤ j → j ≤ n → v.chainAt c j < 0xFFF8) ∨
    (skipClusters v n c = some none ∧ ∃ j, 1 ≤ j ∧ j ≤ n ∧ 0xFFF8 ≤ v.chainAt c j) := by
  induction n generalizing c with
  | zero => exact .inl ⟨rfl, fun j h1 h2 => by omega⟩
  | succ n ih =>
    have hstep : skipClusters v (n + 1) c =
        if v.next c ≥ 0xFFF8 then some none else skipClusters v n (v.next c) := by
      rw [skipClusters, getNextCluster_next, Option.bind_eq_bind, Option.bind_some]
    rw [hstep]
    by_cases hend : v.next c ≥ 0xFFF8
    · rw [if_pos hend]
      exact .inr ⟨rfl, 1, le_rfl, by omega, hend⟩
    rw [if_neg hend, Volume.chainAt_succ]
    obtain ⟨hskip, hall⟩ | ⟨hskip, j, h1, h2, hj⟩ := ih (v.next c)
    · refine .inl ⟨hskip, fun j h1 h2 => ?_⟩
      obtain ⟨k, rfl⟩ : ∃ k, j = k + 1 := ⟨j - 1, by omega⟩
      rw [Volume.chainAt_succ]
      by_cases hk : k = 0
      · rw [hk, Volume.chainAt_zero]
        omega
      · exact hall k (by omega) (by omega)
    · refine .inr ⟨hskip, j + 1, by omega, by omega, ?_⟩
      rwa [Volume.chainAt_succ]

/-- The bytes the copy loop stores for a request of `n` bytes, from `off` bytes into
    cluster `c`. -/
structure Copied (v : Volume) (c off n : ℕ) (bytes : List UInt8) : Prop where
  length_iff : ∀ j, j < bytes.length ↔
    j < n ∧ ∀ i ≤ (off + j) / clusterSize v.bpb, v.chainAt c i < 0xFFF8
  byte : ∀ j < bytes.length, bytes[j]? =
    (v.block (v.chainAt c ((off + j) / clusterSize v.bpb)))[(off + j) % clusterSize v.bpb]?

omit hcs in
theorem Copied.nil {c off n : ℕ} (h : n = 0 ∨ 0xFFF8 ≤ c) : Copied v c off n [] := by
  refine ⟨fun j => ⟨fun hj => absurd hj (Nat.not_lt_zero j), fun hj => ?_⟩,
    fun j hj => absurd hj (Nat.not_lt_zero j)⟩
  have hc : c < 0xFFF8 := hj.2 0 (Nat.zero_le _)
  omega

/-- The rest of the request is in the cluster. -/
theorem Copied.within {c off n : ℕ} (hc : c < 0xFFF8) (hn : off + n ≤ clusterSize v.bpb) :
    Copied v c off n (((v.block c).drop off).take n) := by
  have hblock := (readBytes_block hcs c).2
  have hlen : (((v.block c).drop off).take n).length = n := by
    rw [List.length_take, List.length_drop, hblock]
    omega
  constructor
  · intro j
    rw [hlen]
    refine ⟨fun hj => ⟨hj, fun i hi => ?_⟩, fun hj => hj.1⟩
    rw [Nat.div_eq_of_lt (by omega), Nat.le_zero] at hi
    rwa [hi]
  · intro j hj
    rw [hlen] at hj
    rw [List.getElem?_take_of_lt hj, List.getElem?_drop, Nat.div_eq_of_lt (by omega),
      Nat.mod_eq_of_lt (by omega), Volume.chainAt_zero]

/-- The request goes on behind the end of the cluster. -/
theorem Copied.across {c off n : ℕ} {rest : List UInt8} (hc : c < 0xFFF8)
    (hoff : off < clusterSize v.bpb) (hn : clusterSize v.bpb - off ≤ n)
    (hrest : Copied v (v.next c) 0 (n - (clusterSize v.bpb - off)) rest) :
    Copied v c off n ((v.block c).drop off ++ rest) := by
  have hblock := (readBytes_block hcs c).2
  have hlen : ((v.block c).drop off).length = clusterSize v.bpb - off := by
    rw [List.length_drop, hblock]
  -- a byte of the rest, at position `k` there, is one cluster further on
  have hdiv : ∀ k, (off + (clusterSize v.bpb - off + k)) / clusterSize v.bpb =
      (0 + k) / clusterSize v.bpb + 1 := by
    intro k
    rw [show off + (clusterSize v.bpb - off + k) = 0 + k + clusterSize v.bpb by omega,
      Nat.add_div_right _ hcs]
  have hmod : ∀ k, (off + (clusterSize v.bpb - off + k)) % clusterSize v.bpb =
      (0 + k) % clusterSize v.bpb := by
    intro k
    rw [show off + (clusterSize v.bpb - off + k) = 0 + k + clusterSize v.bpb by omega,
      Nat.add_mod_right]
  constructor
  · intro j
    rw [List.length_append, hlen]
    by_cases hj : j < clusterSize v.bpb - off
    · refine ⟨fun _ => ⟨by omega, fun i hi => ?_⟩, fun _ => by omega⟩
      rw [Nat.div_eq_of_lt (by omega), Nat.le_zero] at hi
      rwa [hi]
    · obtain ⟨k, rfl⟩ : ∃ k, j = clusterSize v.bpb - off + k := ⟨j - (clusterSize v.bpb - off), by omega⟩
      rw [Nat.add_lt_add_iff_left, hrest.length_iff k, hdiv]
      constructor
      · rintro ⟨hk, hall⟩
        refine ⟨by omega, fun i hi => ?_⟩
        obtain _ | i := i
        · exact hc
        · rw [Volume.chainAt_succ]
          exact hall i (by omega)
      · rintro ⟨hk, hall⟩
        refine ⟨by omega, fun i hi => ?_⟩
        rw [← Volume.chainAt_succ]
        exact hall (i + 1) (by omega)
  · intro j hj
    rw [List.length_append, hlen] at hj
    by_cases hlt : j < clusterSize v.bpb - off
    · rw [List.getElem?_append_left (by rwa [hlen]), List.getElem?_drop,
        Nat.div_eq_of_lt (by omega), Nat.mod_eq_of_lt (by omega), Volume.chainAt_zero]
    · obtain ⟨k, rfl⟩ : ∃ k, j = clusterSize v.bpb - off + k := ⟨j - (clusterSize v.bpb - off), by omega⟩
      rw [List.getElem?_append_right (by omega), hlen, Nat.add_sub_cancel_left,
        hrest.byte k (by omega), hdiv, hmod, Volume.chainAt_succ]

/-- The copy loop ends, whatever the FAT holds: each round copies a byte or more. -/
theorem copyLoop_copied {fuel c off n : ℕ} (hoff : off < clusterSize v.bpb) (hfuel : n < fuel) :
    ∃ bytes, copyLoop v fuel c off n = some bytes ∧ Copied v c off n bytes := by
  induction fuel generalizing c off n with
  | zero => omega
  | succ fuel ih =>
    obtain ⟨hread, hbytes⟩ := readBytes_block hcs c
    by_cases hgo : n > 0 ∧ c < 0xFFF8
    · by_cases hin : n ≤ clusterSize v.bpb - off
      · exact ⟨_, copyLoop_within hgo.2 hread hin hfuel, .within hcs hgo.2 (by omega)⟩
      · obtain ⟨rest, hloop, hrest⟩ := ih (c := v.next c) (n := n - (clusterSize v.bpb - off)) hcs
          (by omega)
        refine ⟨_, ?_, .across hcs hgo.2 hoff (by omega) hrest⟩
        rw [copyLoop_across hgo.2 hread hbytes (getNextCluster_next v c) (by omega), hloop,
          Option.map_some]
    · rw [copyLoop, if_neg hgo]
      exact ⟨[], rfl, .nil (by omega)⟩

end Loops

/-! ## One call -/

/-- The table after the offset of slot `i` has been set. -/
def setOffset (files : OpenFiles) (i : Fin maxOpenFiles) (offset : ℕ) : OpenFiles :=
  Function.update files i { files i with offset := offset }

/-- The loops of `fat16_read` get to entry `k` of the chain of the file: no entry up to
    there is an end-of-chain marker. Entry 0 is not looked at when clusters are
    skipped. -/
def Reaches (v : Volume) (file : File) (k : ℕ) : Prop :=
  ∀ i ≤ k, (i = 0 → file.offset < clusterSize v.bpb) →
    v.chainAt file.startCluster i < 0xFFF8

/-- The number of bytes a call may return. -/
def request (file : File) (size : ℕ) : ℕ := min size (file.size - file.offset)

/-- The entry of the chain that byte `j` of a result is read for. -/
def entryFor (v : Volume) (file : File) (j : ℕ) : ℕ :=
  v.chainAt file.startCluster ((file.offset + j) / clusterSize v.bpb)

/-- A call for `size` bytes of `file` that stores `bytes`: it goes on until the request
    or the chain ends, and each byte is read from its cluster. -/
structure Returned (v : Volume) (file : File) (size : ℕ) (bytes : List UInt8) : Prop where
  length_iff : ∀ j, j < bytes.length ↔
    j < request file size ∧ Reaches v file ((file.offset + j) / clusterSize v.bpb)
  byte : ∀ j < bytes.length, bytes[j]? =
    (v.block (entryFor v file j))[(file.offset + j) % clusterSize v.bpb]?

theorem Returned.nil {v : Volume} {file : File} {size : ℕ}
    (h : ∀ j < request file size, ¬Reaches v file ((file.offset + j) / clusterSize v.bpb)) :
    Returned v file size [] where
  length_iff j := ⟨fun hj => absurd hj (Nat.not_lt_zero j), fun hj => absurd hj.2 (h j hj.1)⟩
  byte j hj := absurd hj (Nat.not_lt_zero j)

theorem Returned.length_le {v : Volume} {file : File} {size : ℕ} {bytes : List UInt8}
    (h : Returned v file size bytes) : bytes.length ≤ request file size := by
  by_contra hlt
  exact lt_irrefl _ ((h.length_iff (request file size)).mp (by omega)).1

/-- What the copy loop stores from the cluster of the offset on is what the call
    returns. -/
theorem Copied.returned {v : Volume} (hcs : 0 < clusterSize v.bpb) {file : File} {size : ℕ}
    {bytes : List UInt8}
    (hskip : ∀ j, 1 ≤ j → j ≤ file.offset / clusterSize v.bpb →
      v.chainAt file.startCluster j < 0xFFF8)
    (h : Copied v (v.chainAt file.startCluster (file.offset / clusterSize v.bpb))
      (file.offset % clusterSize v.bpb) (request file size) bytes) :
    Returned v file size bytes := by
  have hsplit : ∀ j, (file.offset + j) / clusterSize v.bpb = file.offset / clusterSize v.bpb +
      (file.offset % clusterSize v.bpb + j) / clusterSize v.bpb := by
    intro j
    conv_lhs => rw [← Nat.div_add_mod file.offset (clusterSize v.bpb), Nat.add_assoc]
    exact Nat.mul_add_div hcs _ _
  have hmod : ∀ j, (file.offset + j) % clusterSize v.bpb =
      (file.offset % clusterSize v.bpb + j) % clusterSize v.bpb := by
    intro j
    rw [Nat.mod_add_mod]
  constructor
  · intro j
    rw [h.length_iff j, and_congr_right_iff]
    intro _
    constructor
    · intro hall i hi h0
      obtain hle | hlt := le_or_gt (file.offset / clusterSize v.bpb) i
      · obtain ⟨k, rfl⟩ := Nat.exists_eq_add_of_le hle
        rw [← Volume.chainAt_add]
        rw [hsplit] at hi
        exact hall k (by omega)
      · refine hskip i ?_ hlt.le
        by_contra hzero
        have hi0 : i = 0 := by omega
        rw [hi0, Nat.div_eq_of_lt (h0 hi0)] at hlt
        exact lt_irrefl 0 hlt
    · intro hall k hk
      rw [Volume.chainAt_add]
      refine hall _ (by rw [hsplit]; omega) fun hzero => ?_
      exact (Nat.div_eq_zero_iff_lt hcs).mp (Nat.add_eq_zero_iff.mp hzero).1
  · intro j hj
    rw [h.byte j hj, Volume.chainAt_add, ← hsplit, ← hmod]
    rfl

theorem fat16Read_returned {v : Volume} (hcs : 0 < clusterSize v.bpb) {files : OpenFiles} {fd : ℤ}
    {i : Fin maxOpenFiles} (hi : fileOf files fd = some i) (size : ℕ) :
    ∃ ret bytes files', fat16Read v files fd size = some (ret, bytes, files') ∧
      Returned v (files i) size bytes ∧
      (ret = -1 ∧ bytes = [] ∧ files' = files ∧ 0 < request (files i) size ∨
        ret = 0 ∧ bytes = [] ∧ files' = files ∨
        (files i).offset < (files i).size ∧ ret = Int.bmod bytes.length (2 ^ 32) ∧
        files' = setOffset files i (((files i).offset + bytes.length) % 2 ^ 32)) := by
  unfold fat16Read
  rw [hi]
  dsimp only
  by_cases hnone : size = 0 ∨ (files i).offset ≥ (files i).size
  · have hreq : request (files i) size = 0 := by
      unfold request
      omega
    refine ⟨0, [], files, ?_, .nil fun j hj => by omega, .inr (.inl ⟨rfl, rfl, rfl⟩)⟩
    by_cases h0 : size = 0
    · rw [if_pos h0]
      rfl
    · rw [if_neg h0]
      simp only [if_pos (hnone.resolve_left h0), Option.pure_def]
  push Not at hnone
  have hreq : (if size > (files i).size - (files i).offset then (files i).size - (files i).offset
      else size) = request (files i) size := by
    unfold request
    split_ifs <;> omega
  rw [if_neg hnone.1]
  simp only [if_neg (not_le.mpr hnone.2), if_neg hcs.ne', hreq, Option.bind_eq_bind,
    Option.pure_def]
  obtain ⟨hskip, hall⟩ | ⟨hskip, j, h1, h2, hj⟩ := skipClusters_chain (v := v)
    ((files i).offset / clusterSize v.bpb) (files i).startCluster
  · obtain ⟨bytes, hloop, hcopied⟩ := copyLoop_copied hcs
      (c := v.chainAt (files i).startCluster ((files i).offset / clusterSize v.bpb))
      (Nat.mod_lt (files i).offset hcs) (Nat.lt_succ_self (request (files i) size))
    rw [hskip, Option.bind_some]
    simp only [hloop, Option.bind_some]
    exact ⟨_, bytes, _, rfl, hcopied.returned hcs hall, .inr (.inr ⟨hnone.2, rfl, rfl⟩)⟩
  · rw [hskip, Option.bind_some]
    refine ⟨-1, [], files, rfl, .nil fun k hk hreach => ?_, .inl ⟨rfl, rfl, rfl, ?_⟩⟩
    swap
    · unfold request
      omega
    have hle : (files i).offset / clusterSize v.bpb ≤ ((files i).offset + k) / clusterSize v.bpb :=
      Nat.div_le_div_right (Nat.le_add_right _ _)
    have hlt := hreach j (h2.trans hle) fun h0 => by omega
    omega

/-- **Any FAT is safe to read.** For all contents of the drive, every boot sector with a
    non-zero cluster size, all open files and all requests below `2 ^ 31`, `fat16_read`
    returns. The result is -1, with nothing stored and no file changed, or the number of
    bytes stored, which is at most the request and at most the rest of the file; then the
    offset of the file advances by this number and nothing else changes. -/
theorem fat16_read_total {v : Volume} (hcs : clusterSize v.bpb ≠ 0) {files : OpenFiles}
    (hfiles : ∀ i, (files i).size < 2 ^ 32) (fd : ℤ) {size : ℕ} (hsize : size < 2 ^ 31) :
    ∃ ret bytes files', fat16Read v files fd size = some (ret, bytes, files') ∧
      (ret = -1 ∧ bytes = [] ∧ files' = files ∨
        ∃ i, fileOf files fd = some i ∧ ret = bytes.length ∧
          bytes.length ≤ min size ((files i).size - (files i).offset) ∧
          files' = setOffset files i ((files i).offset + bytes.length)) := by
  cases hi : fileOf files fd with
  | none =>
    refine ⟨-1, [], files, ?_, .inl ⟨rfl, rfl, rfl⟩⟩
    unfold fat16Read
    rw [hi]
  | some i =>
    obtain ⟨ret, bytes, files', hcall, hret, hout⟩ :=
      fat16Read_returned (Nat.pos_of_ne_zero hcs) hi size
    refine ⟨ret, bytes, files', hcall,
      hout.imp (fun h => ⟨h.1, h.2.1, h.2.2.1⟩) fun h => ⟨i, rfl, ?_⟩⟩
    have hlen : bytes.length ≤ min size ((files i).size - (files i).offset) := hret.length_le
    obtain ⟨rfl, rfl, rfl⟩ | ⟨hin, hval, hset⟩ := h
    · exact ⟨rfl, hlen, (Function.update_eq_self i files').symm⟩
    · have hlt := hfiles i
      have hbmod : Int.bmod (bytes.length : ℤ) (2 ^ 32) = bytes.length :=
        Int.bmod_eq_of_le (by omega) (by omega)
      rw [Nat.mod_eq_of_lt (by omega)] at hset
      exact ⟨hval.trans hbmod, hlen, hset⟩

/-- One open file, not read so far. -/
def oneFile (startCluster size : ℕ) : OpenFiles :=
  Function.update noFiles 0 { startCluster, size, offset := 0, used := true, refs := 1 }

/-- A volume whose cluster 2 is its own successor. -/
def loopVolume : Volume where
  disk := fun a => if a = 512 + 4 then 2 else 0
  bpb := twoClusterVolume.bpb
  partOffset := 0

/-- A file of 5000 bytes whose chain has one cluster of 512 bytes and no end. -/
theorem fat16_read_total_loop :
    ∃ bytes files', fat16Read loopVolume (oneFile 2 5000) 0 4096 = some (4096, bytes, files') ∧
      bytes.length = 4096 ∧ files' = setOffset (oneFile 2 5000) 0 4096 := by
  have hfiles : ∀ i, (oneFile 2 5000 i).size < 2 ^ 32 := by
    intro i
    unfold oneFile
    rw [Function.update_apply]
    split_ifs <;> norm_num [noFiles]
  have hval : (fat16Read loopVolume (oneFile 2 5000) 0 4096).map Prod.fst = some 4096 := by
    decide +kernel
  obtain ⟨ret, bytes, files', hcall, hout⟩ :=
    fat16_read_total (v := loopVolume) (by decide) hfiles 0 (show 4096 < 2 ^ 31 by norm_num)
  rw [hcall, Option.map_some, Option.some_inj] at hval
  subst hval
  obtain ⟨habs, -⟩ | ⟨i, hi, hlen, -, rfl⟩ := hout
  · exact absurd habs (by norm_num)
  · have hlen : bytes.length = 4096 := by exact_mod_cast hlen.symm
    obtain rfl : i = 0 := by
      rw [show fileOf (oneFile 2 5000) 0 = some 0 by decide] at hi
      exact (Option.some.inj hi).symm
    exact ⟨bytes, _, hcall, hlen, by rw [hlen]; rfl⟩

/-! ## The data region -/

end Mboot.Fat16
