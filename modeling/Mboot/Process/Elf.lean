import Mboot.Process.Image

/-!
# Reading ELF files

Model of the part of `exec_elf` and `spawn_elf` (`stage2/elf.c`, lines 108–140 and 52–83)
that reads a file in a buffer: the magic number, the program headers and the list of
segments. The bytes come from a parameter, so that a read outside of the buffer can be
told from the others.

* `elf_loader_in_bounds`: with headers, tables and segments inside the file, both loaders
  read inside the buffer and index `image_pages` inside its bounds.
* `elf_loader_out_of_bounds`: only the magic number is checked.
-/

namespace Mboot.Process

open Common
open Paging

/-! ## The loaders -/

/-- `ELF_MAGIC` (inc/elf.h). -/
abbrev elfMagic : ℕ := 0x464C457F

/-- `PT_LOAD` (inc/elf.h). -/
abbrev ptLoad : ℕ := 1

/-- The field of `w` bytes at offset `off` of the buffer; addresses wrap. -/
def readField (byteAt : ℕ → Option UInt8) (w off : ℕ) : Option ℕ :=
  ((List.range w).mapM fun i => byteAt ((off + i) % 2 ^ 32)).map leValue

/-- One round of the loop over the program headers (elf.c lines 124–135 and 62–73), for the
    header at offset `ph` of the buffer at `buf`: the segment that is added to the list. -/
def readPhdr (byteAt : ℕ → Option UInt8) (buf ph : ℕ) : Option (Option Segment) := do
  let type ← readField byteAt 4 ph
  if type ≠ ptLoad then return none
  let vaddr ← readField byteAt 4 (ph + 8)
  if vaddr < 0x1000000 then return none
  let filesz ← readField byteAt 4 (ph + 16)
  let memsz ← readField byteAt 4 (ph + 20)
  let offset ← readField byteAt 4 (ph + 4)
  return some ⟨vaddr, filesz, memsz, (buf + offset) % 2 ^ 32⟩

/-- The loop over `n` program headers. -/
def readPhdrs (byteAt : ℕ → Option UInt8) (buf : ℕ) : ℕ → ℕ → Option (List Segment)
  | 0, _ => some []
  | n + 1, ph => do
    let segment ← readPhdr byteAt buf ph
    let segments ← readPhdrs byteAt buf n (ph + 32)
    return segment.toList ++ segments

/-- The start of both functions (lines 109–114 and 52–60): the number of program headers, or
    `none` for a file without the magic number. -/
def readHeader (byteAt : ℕ → Option UInt8) : Option (Option ℕ) := do
  let magic ← readField byteAt 4 0
  if magic ≠ elfMagic then return none
  (readField byteAt 2 44).map some

/-- The end of both functions (lines 122–144 and 61–87): the entry point and the segments, or
    `none` if there are no segments. -/
def readSegments (byteAt : ℕ → Option UInt8) (buf phnum : ℕ) :
    Option (Option (ℕ × List Segment)) := do
  let phoff ← readField byteAt 4 28
  let segments ← readPhdrs byteAt buf phnum phoff
  if segments = [] then return none
  (readField byteAt 4 24).map fun entry => some (entry, segments)

/-- `exec_elf` between the read of the file and `scheduler_exec_replace` (lines 109–143). The
    inner `none` is a rejected file. Without program headers `kmalloc` returns null. -/
def execParse (byteAt : ℕ → Option UInt8) (buf : ℕ) : Option (Option (ℕ × List Segment)) := do
  match ← readHeader byteAt with
  | none => return none
  | some phnum => if phnum = 0 then return none else readSegments byteAt buf phnum

/-- `spawn_elf` between the read of the file and `create_user_task_from_segments`
    (lines 52–85). -/
def spawnParse (byteAt : ℕ → Option UInt8) (buf : ℕ) : Option (Option (ℕ × List Segment)) := do
  match ← readHeader byteAt with
  | none => return none
  | some phnum => readSegments byteAt buf phnum

/-! ## Bounds -/

/-- The copy of the segments (`copySegments`) reads from the `size` bytes at `buf`, uses
    indices of `image_pages`, and nothing on the way to `page_count` wraps. -/
structure CopiesInBounds (buf size : ℕ) (segments : List Segment) : Prop where
  data : ∀ s ∈ segments, ∀ c ∈ chunks (imageSpan segments).1 s.vaddr s.data s.filesz,
    buf ≤ c.src ∧ c.src + c.len ≤ buf + size
  pages : ∀ s ∈ segments, ∀ c ∈ chunks (imageSpan segments).1 s.vaddr s.data s.filesz,
    c.pageIdx < pageCount segments
  ends : ∀ s ∈ segments, s.vaddr + s.memsz + 4095 < 2 ^ 32
  count : 4 * pageCount segments < 2 ^ 32

/-- A loader rejects the file, or stays inside the buffer and inside `image_pages`. -/
def LoadsInBounds (parse : (ℕ → Option UInt8) → ℕ → Option (Option (ℕ × List Segment)))
    (file : List UInt8) (buf : ℕ) : Prop :=
  ∃ result, parse (fun i => file[i]?) buf = some result ∧
    ∀ entry segments, result = some (entry, segments) →
      (imageSpan segments).1 ≥ (imageSpan segments).2 ∨
        CopiesInBounds buf file.length segments

/-- The field of `w` bytes at offset `off` of a file. -/
def field (file : List UInt8) (w off : ℕ) : ℕ := leValue ((file.drop off).take w)

/-- The offset of program header `i`. -/
def phdrAt (file : List UInt8) (i : ℕ) : ℕ := field file 4 28 + 32 * i

/-- The header, the program headers and the contents of the segments are inside the file;
    no segment has more contents than memory or ends near the end of the address space. -/
structure ElfFits (file : List UInt8) : Prop where
  header : 52 ≤ file.length
  table : field file 4 28 + 32 * field file 2 44 ≤ file.length
  segments : ∀ i < field file 2 44, field file 4 (phdrAt file i) = ptLoad →
    0x1000000 ≤ field file 4 (phdrAt file i + 8) →
    field file 4 (phdrAt file i + 4) + field file 4 (phdrAt file i + 16) ≤ file.length ∧
    field file 4 (phdrAt file i + 16) ≤ field file 4 (phdrAt file i + 20) ∧
    field file 4 (phdrAt file i + 8) + field file 4 (phdrAt file i + 20) + 4095 < 2 ^ 32

/-! ## Reading -/

variable {file : List UInt8} {buf : ℕ}

theorem mapM_range_getElem {off w : ℕ} (h : off + w ≤ file.length) (hlen : file.length < 2 ^ 32) :
    (List.range w).mapM (fun i => file[(off + i) % 2 ^ 32]?) = some ((file.drop off).take w) := by
  induction w with
  | zero => simp
  | succ w ih =>
    rw [List.range_succ, List.mapM_append, ih (by omega), List.mapM_cons, List.mapM_nil,
      Nat.mod_eq_of_lt (by omega), List.getElem?_eq_getElem (by omega),
      List.take_add_one, List.getElem?_drop, List.getElem?_eq_getElem (by omega)]
    rfl

theorem readField_inside {w off : ℕ} (h : off + w ≤ file.length) (hlen : file.length < 2 ^ 32) :
    readField (fun i => file[i]?) w off = some (field file w off) := by
  rw [readField, mapM_range_getElem h hlen]
  rfl

/-- A program header as the loaders take it. -/
def phdrSegment (file : List UInt8) (buf ph : ℕ) : Option Segment :=
  if field file 4 ph = ptLoad ∧ 0x1000000 ≤ field file 4 (ph + 8) then
    some ⟨field file 4 (ph + 8), field file 4 (ph + 16), field file 4 (ph + 20),
      (buf + field file 4 (ph + 4)) % 2 ^ 32⟩
  else none

theorem readPhdr_inside {ph : ℕ} (h : ph + 32 ≤ file.length) (hlen : file.length < 2 ^ 32) :
    readPhdr (fun i => file[i]?) buf ph = some (phdrSegment file buf ph) := by
  unfold readPhdr phdrSegment
  rw [readField_inside (by omega) hlen, readField_inside (by omega) hlen,
    readField_inside (by omega) hlen, readField_inside (by omega) hlen,
    readField_inside (by omega) hlen]
  simp only [Option.bind_eq_bind, Option.bind_some, Option.pure_def]
  by_cases htype : field file 4 ph = ptLoad
  · by_cases hlow : field file 4 (ph + 8) < 0x1000000
    · simp [htype, hlow]
    · simp [htype, hlow, not_lt.mp hlow]
  · simp [htype]

theorem readPhdrs_inside {n ph : ℕ} (h : ph + 32 * n ≤ file.length) (hlen : file.length < 2 ^ 32) :
    readPhdrs (fun i => file[i]?) buf n ph =
      some ((List.range n).filterMap fun i => phdrSegment file buf (ph + 32 * i)) := by
  induction n generalizing ph with
  | zero => rfl
  | succ n ih =>
    rw [readPhdrs, readPhdr_inside (by omega) hlen, ih (by omega), List.range_succ_eq_map,
      List.filterMap_cons, List.filterMap_map]
    have hshift : (fun i => phdrSegment file buf (ph + 32 * (i + 1))) =
        fun i => phdrSegment file buf (ph + 32 + 32 * i) := by
      funext i
      congr 1
      ring
    simp only [Option.bind_eq_bind, Option.bind_some, Function.comp_def, Nat.succ_eq_add_one,
      hshift, Nat.mul_zero, Nat.add_zero]
    cases phdrSegment file buf ph with
    | none | some s => rfl

/-! ## The segments of a file that fits -/

/-- The segments of a file. -/
def fileSegments (file : List UInt8) (buf : ℕ) : List Segment :=
  (List.range (field file 2 44)).filterMap fun i => phdrSegment file buf (phdrAt file i)

/-- What the headers say of a segment, with its contents inside the buffer. -/
structure SegmentInside (buf size : ℕ) (s : Segment) : Prop where
  data : s.filesz ≠ 0 → buf ≤ s.data ∧ s.data + s.filesz ≤ buf + size
  ok : s.Ok

theorem fileSegments_inside (h : ElfFits file) (hbuf : buf + file.length < 2 ^ 32) :
    ∀ s ∈ fileSegments file buf, SegmentInside buf file.length s := by
  intro s hs
  obtain ⟨i, hi, hseg⟩ := List.mem_filterMap.mp hs
  have hlt := List.mem_range.mp hi
  unfold phdrSegment at hseg
  split_ifs at hseg with hload
  obtain ⟨hdata, hfilesz, hend⟩ := h.segments i hlt hload.1 hload.2
  obtain rfl := Option.some.inj hseg
  have hmod : (buf + field file 4 (phdrAt file i + 4)) % 2 ^ 32 =
      buf + field file 4 (phdrAt file i + 4) := Nat.mod_eq_of_lt (by omega)
  refine ⟨fun _ => ?_, hfilesz, hend, ?_⟩
  · dsimp only
    omega
  · dsimp only
    omega

section Chunks

variable {base dst src remaining : ℕ}

/-- The loop reads the contents of the segment from front to back. -/
theorem chunks_src_mem (hbase : base % 4096 = 0) (hlo : base ≤ dst)
    (hend : dst + remaining < 2 ^ 32) (hsrc : src + remaining < 2 ^ 32) :
    ∀ c ∈ chunks base dst src remaining, src ≤ c.src ∧ c.src + c.len ≤ src + remaining := by
  intro c hc
  obtain ⟨off, hle, -, -, hfrom⟩ := mem_chunks hbase hlo hend hc
  rw [hfrom hsrc]
  omega

end Chunks

theorem copiesInBounds {size : ℕ} (hbuf : buf + size < 2 ^ 32) {segments : List Segment}
    (hne : segments ≠ []) (h : ∀ s ∈ segments, SegmentInside buf size s) :
    CopiesInBounds buf size segments := by
  have hok : ∀ s ∈ segments, s.Ok := fun s hs => (h s hs).ok
  have hspan := imageSpan_spec hne hok
  have hv : ∀ s ∈ segments, s.vaddr < 2 ^ 32 := fun s hs => by
    have := (hok s hs).fits
    omega
  obtain ⟨hbase, hstop, hlt, -⟩ := imageSpan_aligned hv hne
  refine ⟨fun s hs c hc => ?_, fun s hs => ?_, fun s hs => (hok s hs).fits, ?_⟩
  · obtain ⟨hlo, hhi⟩ := hspan.inside hs
    have hle := (hok s hs).filesz_le
    have hpos : s.filesz ≠ 0 := by
      intro hzero
      rw [hzero, chunks, if_pos rfl] at hc
      cases hc
    obtain ⟨hstart, hstop⟩ := (h s hs).data hpos
    have hsrc := chunks_src_mem hbase hlo (by omega) (by omega) c hc
    omega
  · obtain ⟨hlo, hhi⟩ := hspan.inside hs
    have hle := (hok s hs).filesz_le
    refine chunks_pageIdx_lt hbase hlo ?_ (by omega)
    unfold pageCount
    omega
  · unfold pageCount
    omega

theorem readHeader_inside (h : ElfFits file) (hlen : file.length < 2 ^ 32) :
    readHeader (fun i => file[i]?) =
      some (if field file 4 0 ≠ elfMagic then none else some (field file 2 44)) := by
  have hheader := h.header
  rw [readHeader, readField_inside (by omega) hlen, readField_inside (by omega) hlen]
  simp only [Option.bind_eq_bind, Option.bind_some, Option.pure_def, Option.map_some]
  split_ifs <;> rfl

theorem readSegments_inside (h : ElfFits file) (hlen : file.length < 2 ^ 32) :
    readSegments (fun i => file[i]?) buf (field file 2 44) =
      some (if fileSegments file buf = [] then none
        else some (field file 4 24, fileSegments file buf)) := by
  have hheader := h.header
  have hread : readPhdrs (fun i => file[i]?) buf (field file 2 44) (field file 4 28) =
      some (fileSegments file buf) := readPhdrs_inside h.table hlen
  rw [readSegments, readField_inside (by omega) hlen, readField_inside (by omega) hlen]
  simp only [hread, Option.bind_eq_bind, Option.bind_some, Option.pure_def, Option.map_some]
  split_ifs <;> rfl

/-- For every file that fits, at every place of the buffer: both loaders reject it, or read
    headers and contents inside the buffer only and use only indices below `page_count`,
    with no end of a segment and no count that wraps. -/
theorem elf_loader_in_bounds (h : ElfFits file) (hbuf : buf + file.length < 2 ^ 32) :
    LoadsInBounds execParse file buf ∧ LoadsInBounds spawnParse file buf := by
  have hlen : file.length < 2 ^ 32 := by omega
  have hreject : ∀ entry segments, (none : Option (ℕ × List Segment)) = some (entry, segments) →
      (imageSpan segments).1 ≥ (imageSpan segments).2 ∨
        CopiesInBounds buf file.length segments := fun _ _ hcases => by cases hcases
  have haccept : ∀ entry segments,
      (if fileSegments file buf = [] then none
        else some (field file 4 24, fileSegments file buf)) = some (entry, segments) →
      (imageSpan segments).1 ≥ (imageSpan segments).2 ∨
        CopiesInBounds buf file.length segments := by
    intro entry segments hcases
    split_ifs at hcases with hne
    cases hcases
    exact .inr (copiesInBounds hbuf hne (fileSegments_inside h hbuf))
  unfold LoadsInBounds execParse spawnParse
  rw [readHeader_inside h hlen]
  simp only [Option.bind_eq_bind, Option.bind_some, Option.pure_def]
  by_cases hmagic : field file 4 0 = elfMagic
  · rw [if_neg (not_not.mpr hmagic)]
    dsimp only
    rw [readSegments_inside h hlen]
    refine ⟨?_, _, rfl, haccept⟩
    split_ifs
    · exact ⟨_, rfl, hreject⟩
    · exact ⟨_, rfl, hreject⟩
    · exact ⟨_, rfl, fun entry segments => by simpa [*] using haccept entry segments⟩
  · rw [if_pos hmagic]
    exact ⟨⟨_, rfl, hreject⟩, _, rfl, hreject⟩

/-- A file with one program header, for a segment at `0x40000000`. -/
def elfFile (filesz memsz : ℕ) (contents : List UInt8) : List UInt8 :=
  leBytes 4 elfMagic ++ [1, 1, 1] ++ List.replicate 9 0 ++ [2, 0, 3, 0, 1, 0, 0, 0] ++
    leBytes 4 0x40000000 ++ leBytes 4 52 ++ List.replicate 8 0 ++ [52, 0, 32, 0, 1, 0] ++
    List.replicate 6 0 ++
    (leBytes 4 ptLoad ++ leBytes 4 84 ++ leBytes 4 0x40000000 ++ leBytes 4 0x40000000 ++
      leBytes 4 filesz ++ leBytes 4 memsz ++ leBytes 4 7 ++ leBytes 4 0x1000) ++ contents

/-- A program of one byte and one zeroed byte is accepted, and loaded in bounds. -/
theorem elf_loader_in_bounds_program :
    execParse (fun i => (elfFile 1 2 [0xC3])[i]?) 0x200000 =
      some (some (0x40000000, [⟨0x40000000, 1, 2, 0x200054⟩])) ∧
    LoadsInBounds execParse (elfFile 1 2 [0xC3]) 0x200000 ∧
    LoadsInBounds spawnParse (elfFile 1 2 [0xC3]) 0x200000 :=
  ⟨by rfl, elf_loader_in_bounds ⟨by decide, by decide, by decide⟩ (by decide)⟩

theorem imageSpan_overlong (data : ℕ) :
    imageSpan [⟨0x40000000, 4097, 1, data⟩] = (0x40000000, 0x40001000) := by
  have hdown : pageAlignDown 0x40000000 = 0x40000000 := by decide
  have hup : pageAlignUp 0x40000001 = 0x40001000 := by decide
  simp [imageSpan, widen, hdown, hup]

/-- A segment with more contents than memory is copied behind its only page. -/
theorem not_copiesInBounds (buf size data : ℕ) :
    ¬CopiesInBounds buf size [⟨0x40000000, 4097, 1, data⟩] := by
  intro h
  have hpages := h.pages _ List.mem_cons_self
  rw [pageCount, imageSpan_overlong,
    chunks_cons (by norm_num) le_rfl (by norm_num) (by norm_num) rfl,
    chunks_cons (by norm_num) (by norm_num) (by norm_num) (by norm_num) rfl] at hpages
  have hlast := hpages _ (List.mem_cons_of_mem _ List.mem_cons_self)
  norm_num at hlast

/-- Only the magic number is checked. Of a file that ends behind it, the loaders read a
    header that is not there; and contents that are longer than their segment are copied to
    pages behind the end of `image_pages`. -/
theorem elf_loader_out_of_bounds :
    (∀ buf, ¬LoadsInBounds execParse (leBytes 4 elfMagic) buf ∧
      ¬LoadsInBounds spawnParse (leBytes 4 elfMagic) buf) ∧
    ∀ buf, ¬LoadsInBounds execParse (elfFile 4097 1 (List.replicate 4097 0)) buf ∧
      ¬LoadsInBounds spawnParse (elfFile 4097 1 (List.replicate 4097 0)) buf := by
  constructor
  · intro buf
    constructor
    · rintro ⟨result, hparse, -⟩
      cases hparse
    · rintro ⟨result, hparse, -⟩
      cases hparse
  · intro buf
    have hspan : ∀ data, ¬(imageSpan [⟨0x40000000, 4097, 1, data⟩]).1 ≥
        (imageSpan [⟨0x40000000, 4097, 1, data⟩]).2 := fun data => by
      rw [imageSpan_overlong]
      norm_num
    constructor
    · rintro ⟨result, hparse, hbounds⟩
      cases hparse
      exact (hbounds _ _ rfl).elim (hspan _) (not_copiesInBounds _ _ _)
    · rintro ⟨result, hparse, hbounds⟩
      cases hparse
      exact (hbounds _ _ rfl).elim (hspan _) (not_copiesInBounds _ _ _)

end Mboot.Process
