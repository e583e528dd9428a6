import Mboot.Fat16.Chain

/-!
# Sequential reads reproduce the file

The content of a file as its clusters one after the other, cut to the file size, and the
proof that `fat16_read` hands it out.

* `fat16Read_eq`: one call returns the next bytes of the content.
* `fat16_reads_reproduce_file`: on a fresh handle, the results of any sequence
  of reads are the consecutive slices of the content.
-/

namespace Mboot.Fat16

open Common

namespace Volume

/-- `dir` describes a file stored in the clusters `chain`: the chain starts at
    the entry's start cluster, follows the FAT and is long enough for the
    file's size. -/
structure IsFile (v : Volume) (dir : DirEntry) (chain : List ℕ) : Prop where
  size_lt : dir.fileSize.toNat < 2 ^ 31
  start : ∀ c ∈ chain.head?, c = dir.fstClusLO.toNat
  linked : chain.IsChain fun c d => v.fatEntry c = d
  inRange : ∀ c ∈ chain, v.InRange c
  fits : dir.fileSize.toNat ≤ chain.length * clusterSize v.bpb

/-- The content of a file: its clusters, cut to the file size. -/
def content (v : Volume) (dir : DirEntry) (chain : List ℕ) : List UInt8 :=
  (chain.flatMap v.clusterBytes).take dir.fileSize.toNat

@[simp] theorem length_clusterBytes (v : Volume) (c : ℕ) :
    (v.clusterBytes c).length = clusterSize v.bpb := by
  simp [clusterBytes]

theorem IsFile.length_content {v : Volume} {dir : DirEntry} {chain : List ℕ}
    (h : v.IsFile dir chain) : (v.content dir chain).length = dir.fileSize.toNat := by
  have hlen := length_flatMap_blocks (l := chain) (f := v.clusterBytes)
    (fun c _ => v.length_clusterBytes c)
  have hfits := h.fits
  rw [content, List.length_take, hlen]
  omega

/-- The clusters of a file are the entries of its chain. -/
theorem IsFile.chainAt_eq {v : Volume} {dir : DirEntry} {chain : List ℕ} (h : v.IsFile dir chain)
    {k : ℕ} (hk : k < chain.length) : v.chainAt dir.fstClusLO.toNat k = chain[k] := by
  induction k with
  | zero => exact (h.start _ (List.head?_eq_getElem? ▸ List.getElem?_eq_getElem hk)).symm
  | succ k ih =>
    rw [chainAt_add v _ k 1 |>.symm, ih (by omega), chainAt_succ, chainAt_zero,
      next_eq (h.inRange _ (List.getElem_mem _))]
    exact List.isChain_iff_getElem.mp h.linked k hk

theorem block_eq {v : Volume} {c : ℕ} (hcs : 0 < clusterSize v.bpb)
    (hmax : clusterSize v.bpb ≤ 2 ^ 16) (h : v.InRange c) : v.block c = v.clusterBytes c := by
  unfold block
  rw [clusterOffset_eq hcs h, readBytes_eq v.disk hcs hmax h.data]
  rfl

/-- Position `p` of the clusters, one after the other. -/
theorem getElem?_flatMap_clusterBytes (v : Volume) {chain : List ℕ} {p : ℕ}
    (hcs : 0 < clusterSize v.bpb) (hk : p / clusterSize v.bpb < chain.length) :
    (chain.flatMap v.clusterBytes)[p]? =
      (v.clusterBytes chain[p / clusterSize v.bpb])[p % clusterSize v.bpb]? := by
  have hmod := Nat.mod_lt p hcs
  have hblocks := drop_flatMap_blocks (fun c _ => v.length_clusterBytes c) hmod.le hk
  rw [Nat.div_add_mod'] at hblocks
  have hhead : (chain.flatMap v.clusterBytes)[p]? =
      ((chain.flatMap v.clusterBytes).drop p)[0]? := by rw [List.getElem?_drop, Nat.add_zero]
  rw [hhead, hblocks, List.getElem?_append_left
    (by rw [List.length_drop, length_clusterBytes]; omega), List.getElem?_drop, Nat.add_zero]

end Volume

/-! ## One read -/

/-- A handle of an open file whose reads so far ended at `offset`. -/
structure OpenAt (files : OpenFiles) (i : Fin maxOpenFiles) (dir : DirEntry) (offset : ℕ) :
    Prop where
  used : (files i).used = true
  start : (files i).startCluster = dir.fstClusLO.toNat
  size : (files i).size = dir.fileSize.toNat
  offset : (files i).offset = offset

theorem setOffset_self {files : OpenFiles} {i : Fin maxOpenFiles} {dir : DirEntry} {offset : ℕ}
    (h : OpenAt files i dir offset) : setOffset files i offset = files := by
  unfold setOffset
  rw [← h.offset]
  exact Function.update_eq_self i files

theorem OpenAt.setOffset {files : OpenFiles} {i : Fin maxOpenFiles} {dir : DirEntry} {offset : ℕ}
    (h : OpenAt files i dir offset) (offset' : ℕ) :
    OpenAt (setOffset files i offset') i dir offset' := by
  constructor <;> simp [Fat16.setOffset, h.used, h.start, h.size]

theorem setOffset_setOffset (files : OpenFiles) (i : Fin maxOpenFiles) (a b : ℕ) :
    setOffset (setOffset files i a) i b = setOffset files i b := by
  simp [setOffset]

theorem fileOf_eq {files : OpenFiles} {i : Fin maxOpenFiles} (h : (files i).used = true) :
    fileOf files i.val = some i := by
  have hlt := i.isLt
  unfold fileOf
  rw [dif_pos ⟨by omega, by exact_mod_cast hlt⟩]
  simp [h]

/-- A read of `n` bytes at `offset` returns the next `min n (size - offset)`
    bytes of the content and advances the offset by that amount. -/
theorem fat16Read_eq {v : Volume} (hcs : 0 < clusterSize v.bpb)
    (hmax : clusterSize v.bpb ≤ 2 ^ 16) {dir : DirEntry} {chain : List ℕ}
    (hfile : v.IsFile dir chain) {files : OpenFiles} {i : Fin maxOpenFiles} {offset : ℕ}
    (hopen : OpenAt files i dir offset) (hoff : offset ≤ dir.fileSize.toNat) (n : ℕ) :
    fat16Read v files i.val n =
      some (((min n (dir.fileSize.toNat - offset) : ℕ) : ℤ),
        ((v.content dir chain).drop offset).take (min n (dir.fileSize.toNat - offset)),
        setOffset files i (offset + min n (dir.fileSize.toNat - offset))) := by
  have hlt := hfile.size_lt
  have hfits := hfile.fits
  obtain ⟨ret, bytes, files', hcall, hret, hout⟩ := fat16Read_returned hcs (fileOf_eq hopen.used) n
  have hreq : request (files i) n = min n (dir.fileSize.toNat - offset) := by
    rw [request, hopen.size, hopen.offset]
  rw [hreq] at hout
  generalize hm : min n (dir.fileSize.toNat - offset) = m at hreq hout ⊢
  have hbmod : Int.bmod (m : ℤ) (2 ^ 32) = m := Int.bmod_eq_of_le (by omega) (by omega)
  have hsum : (offset + m) % 2 ^ 32 = offset + m := Nat.mod_eq_of_lt (by omega)
  have hin : ∀ j < m, (offset + j) / clusterSize v.bpb < chain.length := fun j hj =>
    (Nat.div_lt_iff_lt_mul hcs).mpr (by omega)
  -- the chain does not end in front of the request
  have hlen : bytes.length = m := by
    refine eq_of_forall_lt_iff fun j => ?_
    rw [hret.length_iff, hreq, and_iff_left_iff_imp]
    intro hj k hk _
    have hk' : k < chain.length := by
      rw [hopen.offset] at hk
      exact hk.trans_lt (hin j hj)
    rw [hopen.start, hfile.chainAt_eq hk']
    have := (hfile.inRange _ (List.getElem_mem hk')).le
    omega
  have hbytes : bytes = ((v.content dir chain).drop offset).take m := by
    apply List.ext_getElem?
    intro j
    by_cases hj : j < m
    · have hk := hin j hj
      rw [hret.byte j (by omega), List.getElem?_take_of_lt hj, List.getElem?_drop, Volume.content,
        List.getElem?_take_of_lt (by omega), v.getElem?_flatMap_clusterBytes hcs hk, entryFor,
        hopen.start, hopen.offset, hfile.chainAt_eq hk,
        Volume.block_eq hcs hmax (hfile.inRange _ (List.getElem_mem hk))]
    · rw [List.getElem?_eq_none (by omega), List.getElem?_eq_none (by rw [List.length_take]; omega)]
  rw [hcall, ← hbytes]
  obtain ⟨-, hnil, -, hpos⟩ | ⟨rfl, hnil, rfl⟩ | ⟨-, hval, hset⟩ := hout
  · rw [hnil, List.length_nil] at hlen
    omega
  · rw [hnil, List.length_nil] at hlen
    rw [← hlen, Nat.add_zero, setOffset_self hopen]
    rfl
  · rw [hval, hset, hlen, hopen.offset, hsum, hbmod]

/-! ## Main theorem -/

/-- The results of calling `fat16_read` on one handle with the sizes `ns`, and
    the table of open files after the last call. -/
def readSeq (v : Volume) (fd : ℤ) :
    OpenFiles → List ℕ → Option (List (ℤ × List UInt8) × OpenFiles)
  | files, [] => some ([], files)
  | files, n :: ns => do
    let (r, bytes, files) ← fat16Read v files fd n
    let (rs, files) ← readSeq v fd files ns
    return ((r, bytes) :: rs, files)

/-- The consecutive slices of `content` from `offset` on: each request gets
    what it asks for, or what is left. -/
def consecutiveSlices (content : List UInt8) : ℕ → List ℕ → List (ℤ × List UInt8)
  | _, [] => []
  | offset, n :: ns =>
    let m := min n (content.length - offset)
    ((m : ℤ), (content.drop offset).take m) :: consecutiveSlices content (offset + m) ns

/-- The offset after the requests `ns` on a file of `size` bytes. -/
def offsetAfter (size offset : ℕ) (ns : List ℕ) : ℕ :=
  ns.foldl (fun offset n => offset + min n (size - offset)) offset

theorem readSeq_eq {v : Volume} (hcs : 0 < clusterSize v.bpb) (hmax : clusterSize v.bpb ≤ 2 ^ 16)
    {dir : DirEntry} {chain : List ℕ} (hfile : v.IsFile dir chain) {i : Fin maxOpenFiles}
    {files : OpenFiles} {offset : ℕ} {ns : List ℕ} (hopen : OpenAt files i dir offset)
    (hoff : offset ≤ dir.fileSize.toNat) :
    readSeq v i.val files ns =
      some (consecutiveSlices (v.content dir chain) offset ns,
        setOffset files i (offsetAfter dir.fileSize.toNat offset ns)) := by
  induction ns generalizing files offset with
  | nil => rw [offsetAfter, List.foldl_nil, setOffset_self hopen]; rfl
  | cons n ns ih =>
    have hnext := ih (hopen.setOffset (offset + min n (dir.fileSize.toNat - offset))) (by omega)
    rw [readSeq, fat16Read_eq hcs hmax hfile hopen hoff, Option.bind_eq_bind, Option.bind_some]
    dsimp only
    rw [hnext, setOffset_setOffset, consecutiveSlices, hfile.length_content]
    rfl

/-- `fat16_open` returns a slot that was free and holds the file, at offset 0. -/
theorem fat16Open_spec {files files' : OpenFiles} {dir : DirEntry} {fd : ℤ}
    (h : fat16Open files (some dir) = (fd, files')) (hfd : 0 ≤ fd) :
    ∃ i : Fin maxOpenFiles, fd = i.val ∧ (files i).used = false ∧ OpenAt files' i dir 0 := by
  unfold fat16Open at h
  dsimp only at h
  split at h
  · cases h; omega
  · next i hi =>
    cases h
    refine ⟨i, rfl, by simpa using List.find?_some hi, ?_⟩
    constructor <;> simp

/-- **Sequential reads reproduce the file.** On a volume with clusters of 1 to
    65536 bytes, for a file stored in a cluster chain, the results of any
    sequence of `fat16_read` calls on the handle of a fresh `fat16_open` are the
    consecutive slices of the file's content: each call returns
    `min request (size - offset)` bytes and advances the offset by as much, so
    that every call after the end returns 0. No other open file changes. -/
theorem fat16_reads_reproduce_file {v : Volume} {dir : DirEntry} {chain : List ℕ}
    {files files' : OpenFiles} {fd : ℤ} (hcs : 0 < clusterSize v.bpb)
    (hmax : clusterSize v.bpb ≤ 2 ^ 16) (hfile : v.IsFile dir chain)
    (hopen : fat16Open files (some dir) = (fd, files')) (hfd : 0 ≤ fd) (ns : List ℕ) :
    ∃ i : Fin maxOpenFiles, fd = i.val ∧
      readSeq v fd files' ns =
        some (consecutiveSlices (v.content dir chain) 0 ns,
          setOffset files' i (offsetAfter dir.fileSize.toNat 0 ns)) := by
  obtain ⟨i, rfl, -, hat⟩ := fat16Open_spec hopen hfd
  exact ⟨i, rfl, readSeq_eq hcs hmax hfile hat (Nat.zero_le _)⟩

/-- A file of 600 bytes in the clusters 2 and 3 is read in three calls; the
    second crosses the cluster boundary and the third meets the end. -/
theorem fat16_reads_reproduce_file_two_clusters :
    ∃ r, readSeq twoClusterVolume 0 (fat16Open noFiles (some ⟨2, 600⟩)).2 [500, 50, 100] = some r ∧
      r.1.map Prod.fst = [500, 50, 50] := by
  have hfile : twoClusterVolume.IsFile ⟨2, 600⟩ [2, 3] := by
    refine ⟨by decide, by decide, by decide, ?_, by decide⟩
    intro c hc
    simp only [List.mem_cons, List.not_mem_nil, or_false] at hc
    rcases hc with rfl | rfl <;> constructor <;> decide
  have hopen : fat16Open noFiles (some ⟨2, 600⟩) =
      (0, (fat16Open noFiles (some ⟨2, 600⟩)).2) := rfl
  obtain ⟨i, -, hread⟩ := fat16_reads_reproduce_file (by decide) (by decide) hfile hopen
    (by decide) [500, 50, 100]
  refine ⟨_, hread, ?_⟩
  simp only [consecutiveSlices, hfile.length_content]
  decide

end Mboot.Fat16
