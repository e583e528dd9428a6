import Mboot.Fat16.Chain

/-!
# The root directory

Model of `get_lfn_name`, `get_file_name`, `find_file_in_dir` and `fat16_open`
(`stage2/fat16.c`) with `strcasecmp` (`stage2/utils.c`), over the 32-byte entries of the
root directory. `find_file_in_dir` is only called for the root directory; the walk over
the clusters of another directory is not modelled.

* `short_names_faithful_iff`: short names are decoded faithfully if and only if there are
  no spaces inside, and two such names collide if and only if they read the same with
  the dot.
* `only_regular_files_iff`: the search returns regular files only if and only if every
  volume label is hidden behind an entry of the same name.
-/

namespace Mboot.Fat16

open Common

/-! ## Entries -/

/-- A `dir_t` or `lfn_entry_t` (inc/fat16.h): 32 bytes. -/
abbrev RawEntry := List UInt8

namespace RawEntry

/-- The byte at offset `k`. -/
def byte (e : RawEntry) (k : ℕ) : UInt8 := e.getD k 0

/-- The little-endian 16-bit field at offset `k`. -/
def word (e : RawEntry) (k : ℕ) : ℕ := (e.byte k).toNat + 256 * (e.byte (k + 1)).toNat

/-- `Attr`, at the same place in both types. -/
def attr (e : RawEntry) : UInt8 := e.byte 11

/-- `Name1`, `Name2` and `Name3` of an `lfn_entry_t`. -/
def name1 (e : RawEntry) : List ℕ := (List.range 5).map fun j => e.word (1 + 2 * j)

@[inherit_doc name1]
def name2 (e : RawEntry) : List ℕ := (List.range 6).map fun j => e.word (14 + 2 * j)

@[inherit_doc name1]
def name3 (e : RawEntry) : List ℕ := (List.range 2).map fun j => e.word (28 + 2 * j)

/-- The fields of a `dir_t` that `fat16_open` reads. -/
def dirEntry (e : RawEntry) : DirEntry where
  fstClusLO := UInt16.ofNat (e.word 26)
  fileSize := UInt32.ofNat (e.word 28 + 2 ^ 16 * e.word 30)

end RawEntry

/-- `DIR_ATTR_LFN` (inc/fat16.h). -/
abbrev dirAttrLfn : UInt8 := 0x0F

/-- `DIR_ATTR_DIRECTORY` (inc/fat16.h). -/
abbrev dirAttrDirectory : UInt8 := 0x10

/-! ## Names -/

/-- One of the three loops of `get_lfn_name` (fat16.c lines 62–69, 72–79, 82–89): `out` so
    far, and whether `done` was set. A code unit is cut to its low byte. -/
def copyUnits (outsize : ℕ) : List UInt8 → List ℕ → List UInt8 × Bool
  | out, [] => (out, false)
  | out, c :: units =>
    if c = 0 ∨ c = 0xFFFF ∨ out.length ≥ outsize - 1 then (out, true)
    else copyUnits outsize (out ++ [UInt8.ofNat c]) units

/-- The body of the outer loop (lines 61–91). -/
def copyFragment (outsize : ℕ) (out : List UInt8) (e : RawEntry) : List UInt8 × Bool :=
  let (out, done) := copyUnits outsize out e.name1
  if done then (out, true)
  else
    let (out, done) := copyUnits outsize out e.name2
    if done then (out, true) else copyUnits outsize out e.name3

/-- The outer loop (lines 60–92), over the entries in the order it takes them. -/
def copyFragments (outsize : ℕ) : List UInt8 → List RawEntry → List UInt8
  | out, [] => out
  | out, e :: entries =>
    let (out, done) := copyFragment outsize out e
    if done then out else copyFragments outsize out entries

/-- `get_lfn_name` (lines 55–94): what stands in `out` in front of the final zero. The
    entries are taken from the last to the first. -/
def getLfnName (lfnEntries : List RawEntry) (outsize : ℕ) : List UInt8 :=
  copyFragments outsize [] lfnEntries.reverse

/-- The loops of lines 114–115 and 118–119: append the characters of a string. -/
def copyText (outsize : ℕ) : List UInt8 → List UInt8 → List UInt8
  | out, [] => out
  | out, c :: text =>
    if c ≠ 0 ∧ out.length < outsize - 1 then copyText outsize (out ++ [c]) text else out

/-- Lines 106–111: every space becomes a zero. -/
def clearSpaces (field : List UInt8) : List UInt8 := field.map fun c => if c = 0x20 then 0 else c

/-- `get_file_name` (lines 96–123): what stands in `out` in front of the final zero. -/
def getFileName (dir : RawEntry) (lfnEntries : List RawEntry) (outsize : ℕ) : List UInt8 :=
  if lfnEntries.length > 0 then getLfnName lfnEntries outsize
  else
    let name := clearSpaces (dir.take 8)
    let ext := clearSpaces ((dir.drop 8).take 3)
    let out := copyText outsize [] name
    if ext.getD 0 0 ≠ 0 ∧ out.length < outsize - 1 then copyText outsize (out ++ [0x2E]) ext
    else out

/-- The characters of a buffer in front of the first zero. -/
def cString (buf : List UInt8) : List UInt8 := buf.takeWhile (· ≠ 0)

/-- `tolower` (utils.c lines 25–29). -/
def toLower (c : UInt8) : UInt8 := if 0x41 ≤ c ∧ c ≤ 0x5A then c + 0x20 else c

/-- `strcasecmp` (utils.c lines 31–45). -/
def strcasecmp : List UInt8 → List UInt8 → ℤ
  | c1 :: s1, c2 :: s2 =>
    if toLower c1 ≠ toLower c2 then (toLower c1).toNat - (toLower c2).toNat
    else strcasecmp s1 s2
  | [], [] => 0
  | c1 :: _, [] => c1.toNat
  | [], c2 :: _ => -c2.toNat

/-! ## Search -/

/-- Lines 249–250: there is room for 20 long-name entries. -/
def pushLfn (lfnEntries : List RawEntry) (dir : RawEntry) : List RawEntry :=
  if lfnEntries.length < 20 then lfnEntries ++ [dir] else lfnEntries

/-- The loop of `find_file_in_dir` over the entries (lines 239–265), with the long-name
    entries collected so far. -/
def scanDir (target : List UInt8) : List RawEntry → List RawEntry → Option RawEntry
  | _, [] => none
  | lfnEntries, dir :: entries =>
    if dir.byte 0 = 0 then none
    else if dir.byte 0 = 0xE5 then scanDir target [] entries
    else if dir.attr = dirAttrLfn then scanDir target (pushLfn lfnEntries dir) entries
    else
      let name := getFileName dir lfnEntries 256
      if dir.attr &&& dirAttrDirectory = 0 ∧ strcasecmp (cString name) target = 0 then some dir
      else scanDir target [] entries

/-- The entries of the root directory as `find_file_in_dir` reads them (lines 219–235).
    `kmalloc` of no bytes is `NULL`; then nothing is found. -/
def rootEntries (v : Volume) : Option (List RawEntry) :=
  let rootSize := v.bpb.rootEntCnt.toNat * 32
  if rootSize = 0 then some []
  else do
    let buffer ← readBytes v.disk ((v.partOffset.toNat + bpbRootAddr v.bpb) % 2 ^ 32) rootSize
    return (List.range (rootSize / 32)).map fun i => (buffer.drop (32 * i)).take 32

/-- `find_file_in_dir(0, target, ..)` (lines 217–275). -/
def findFileInDir (v : Volume) (target : List UInt8) : Option (Option RawEntry) :=
  (rootEntries v).map (scanDir target [])

/-- The loop of `fat16_open` in front of the search (lines 282–287). -/
def stripPath : List UInt8 → List UInt8
  | 0x2F :: path => stripPath path
  | 0x2E :: 0x2F :: path => stripPath path
  | path => path

/-- `fat16_open` (lines 277–312) of a path that is not `NULL`. -/
def fat16OpenPath (v : Volume) (files : OpenFiles) (path : List UInt8) :
    Option (ℤ × OpenFiles) :=
  if path = [] then some (-1, files)
  else do
    let found ← findFileInDir v (stripPath path)
    return fat16Open files (found.map RawEntry.dirEntry)

/-- Byte position of the root directory: behind the FATs. -/
def Volume.rootStart (v : Volume) : ℕ :=
  v.fatStart + v.bpb.numFATs.toNat * v.bpb.fatSz16.toNat * v.bpb.bytsPerSec.toNat

/-- The root directory starts below `2 ^ 32` and takes at most 255 sectors. -/
structure Volume.RootInRange (v : Volume) : Prop where
  below : v.rootStart < 2 ^ 32
  span : v.rootStart % 512 + 32 * v.bpb.rootEntCnt.toNat ≤ 255 * 512

theorem rootEntries_eq {v : Volume} (h : v.RootInRange) :
    rootEntries v = some ((List.range v.bpb.rootEntCnt.toNat).map fun i =>
      slice v.disk (v.rootStart + 32 * i) 32) := by
  obtain ⟨hbelow, hspan⟩ := h
  unfold rootEntries
  generalize hn : v.bpb.rootEntCnt.toNat = n at hspan ⊢
  by_cases h0 : n = 0
  · rw [h0]
    rfl
  have haddr : (v.partOffset.toNat + bpbRootAddr v.bpb) % 2 ^ 32 = v.rootStart := by
    unfold Volume.rootStart Volume.fatStart at hbelow ⊢
    unfold bpbRootAddr bpbFatAddr
    generalize v.bpb.rsvdSecCnt.toNat * v.bpb.bytsPerSec.toNat = a at hbelow ⊢
    generalize v.bpb.numFATs.toNat * v.bpb.fatSz16.toNat * v.bpb.bytsPerSec.toNat = b at hbelow ⊢
    omega
  simp only [if_neg (show n * 32 ≠ 0 by omega), haddr, Option.bind_eq_bind, Option.pure_def,
    readBytes_sectors v.disk (show 0 < n * 32 by omega)
      (show v.rootStart % 512 + n * 32 ≤ 255 * 512 by omega) hbelow,
    Option.bind_some, Nat.mul_div_cancel n (show 0 < 32 by norm_num)]
  refine congrArg some (List.map_congr_left fun i hi => ?_)
  have hlt := List.mem_range.mp hi
  exact take_drop_slice v.disk (by omega)

/-! ## Short names -/

/-- A base of 1 to 8 bytes and an extension of up to 3, without zeros and without
    trailing spaces. -/
structure ShortName where
  base : List UInt8
  ext : List UInt8
  base_ne : base ≠ []
  base_le : base.length ≤ 8
  ext_le : ext.length ≤ 3
  base_zero : 0 ∉ base
  ext_zero : 0 ∉ ext
  base_end : base.getLast? ≠ some 0x20
  ext_end : ext.getLast? ≠ some 0x20

/-- An extension with its dot. -/
def dotted (ext : List UInt8) : List UInt8 := if ext = [] then [] else 0x2E :: ext

theorem length_dotted (ext : List UInt8) : (dotted ext).length = ext.length + min ext.length 1 := by
  unfold dotted
  cases ext with
  | nil => rfl
  | cons c ext => simp

namespace ShortName

/-- The 11 bytes of a directory entry, padded with spaces. -/
def field (n : ShortName) : List UInt8 :=
  n.base ++ List.replicate (8 - n.base.length) 0x20 ++
    (n.ext ++ List.replicate (3 - n.ext.length) 0x20)

/-- The name as it is written: the base alone, or with a dot and the extension. -/
def text (n : ShortName) : List UInt8 := n.base ++ dotted n.ext

/-- The name that `find_file_in_dir` sees for an entry that starts with the name. -/
def decoded (n : ShortName) (rest : List UInt8) : List UInt8 :=
  cString (getFileName (n.field ++ rest) [] 256)

/-- There is no space inside the base or the extension. -/
def NoSpaces (n : ShortName) : Prop := 0x20 ∉ n.base ∧ 0x20 ∉ n.ext

end ShortName

theorem cString_cons (c : UInt8) (text : List UInt8) :
    cString (c :: text) = if c = 0 then [] else c :: cString text := by
  unfold cString
  rw [List.takeWhile_cons]
  by_cases hc : c = 0 <;> simp [hc]

theorem cString_ne_nil_iff (text : List UInt8) : cString text ≠ [] ↔ text.getD 0 0 ≠ 0 := by
  cases text with
  | nil => simp [cString]
  | cons c text =>
    rw [cString_cons, List.getD_cons_zero]
    split_ifs with hc <;> simp [hc]

theorem cString_eq_self {text : List UInt8} (h : 0 ∉ text) : cString text = text := by
  unfold cString
  rw [List.takeWhile_eq_self_iff]
  intro c hc
  simpa using fun heq : c = 0 => h (heq ▸ hc)

theorem copyText_eq {outsize : ℕ} {out text : List UInt8}
    (h : out.length + text.length ≤ outsize - 1) :
    copyText outsize out text = out ++ cString text := by
  induction text generalizing out with
  | nil => simp [copyText, cString]
  | cons c text ih =>
    rw [List.length_cons] at h
    rw [copyText, cString_cons]
    by_cases hc : c = 0
    · rw [if_neg fun hne => hne.1 hc, if_pos hc, List.append_nil]
    · rw [if_pos ⟨hc, by omega⟩, if_neg hc,
        ih (by rw [List.length_append, List.length_singleton]; omega), List.append_assoc]
      rfl

/-- The part of a field in front of the first space. -/
def beforeSpace (field : List UInt8) : List UInt8 := field.takeWhile (· ≠ 0x20)

/-- A padded field ends at its first space. -/
theorem cString_clearSpaces {field : List UInt8} (h : 0 ∉ field) (k : ℕ) :
    cString (clearSpaces (field ++ List.replicate k 0x20)) = beforeSpace field := by
  induction field with
  | nil =>
    obtain _ | k := k
    · rfl
    · simp [clearSpaces, cString, beforeSpace, List.replicate_succ]
  | cons c field ih =>
    rw [List.mem_cons, not_or] at h
    have hrest := ih h.2
    unfold clearSpaces at hrest ⊢
    rw [List.cons_append, List.map_cons, cString_cons]
    by_cases hc : c = 0x20
    · rw [if_pos hc, if_pos rfl, hc]
      rfl
    · rw [if_neg hc, if_neg (Ne.symm h.1), hrest, beforeSpace, beforeSpace,
        List.takeWhile_cons_of_pos (by simpa using hc)]

theorem beforeSpace_eq_self {field : List UInt8} : beforeSpace field = field ↔ 0x20 ∉ field := by
  unfold beforeSpace
  rw [List.takeWhile_eq_self_iff]
  constructor
  · intro h hmem
    simpa using h _ hmem
  · intro h c hc
    simpa using fun heq : c = 0x20 => h (heq ▸ hc)

theorem length_beforeSpace_le (field : List UInt8) : (beforeSpace field).length ≤ field.length :=
  (List.takeWhile_prefix _).length_le

theorem beforeSpace_of_length {field : List UInt8}
    (h : (beforeSpace field).length = field.length) : beforeSpace field = field :=
  (List.takeWhile_prefix _).eq_of_length h

theorem zero_notMem_beforeSpace {field : List UInt8} (h : 0 ∉ field) : 0 ∉ beforeSpace field :=
  fun hmem => h ((List.takeWhile_prefix _).subset hmem)

/-- Base and extension are both cut at their first space, and an extension of which
    nothing is left loses its dot. -/
theorem ShortName.decoded_eq (n : ShortName) (rest : List UInt8) :
    n.decoded rest = beforeSpace n.base ++ dotted (beforeSpace n.ext) := by
  have hb := n.base_le
  have he := n.ext_le
  have hlen : (n.base ++ List.replicate (8 - n.base.length) 0x20).length = 8 := by
    rw [List.length_append, List.length_replicate]
    omega
  have hlen' : (n.ext ++ List.replicate (3 - n.ext.length) 0x20).length = 3 := by
    rw [List.length_append, List.length_replicate]
    omega
  have hbase : (n.field ++ rest).take 8 = n.base ++ List.replicate (8 - n.base.length) 0x20 := by
    rw [ShortName.field, List.append_assoc, List.take_append_of_le_length hlen.ge,
      List.take_of_length_le hlen.le]
  have hext : ((n.field ++ rest).drop 8).take 3 =
      n.ext ++ List.replicate (3 - n.ext.length) 0x20 := by
    rw [ShortName.field, List.append_assoc, List.drop_append_of_le_length hlen.ge,
      List.drop_of_length_le hlen.le, List.nil_append, List.take_append_of_le_length hlen'.ge,
      List.take_of_length_le hlen'.le]
  have htext : copyText 256 [] (clearSpaces ((n.field ++ rest).take 8)) = beforeSpace n.base := by
    rw [hbase, copyText_eq (by simp only [clearSpaces, List.length_map, hlen]; decide),
      cString_clearSpaces n.base_zero, List.nil_append]
  have hhead : (clearSpaces (n.ext ++ List.replicate (3 - n.ext.length) 0x20)).getD 0 0 ≠ 0 ↔
      beforeSpace n.ext ≠ [] := by
    rw [← cString_ne_nil_iff, cString_clearSpaces n.ext_zero]
  have hcut := length_beforeSpace_le n.base
  have hbase0 := zero_notMem_beforeSpace n.base_zero
  have hext0 := zero_notMem_beforeSpace n.ext_zero
  unfold ShortName.decoded getFileName dotted
  simp only [List.length_nil, gt_iff_lt, lt_irrefl, if_false, htext, hext]
  by_cases hnone : beforeSpace n.ext = []
  · rw [if_neg fun h => hhead.mp h.1 hnone, if_pos hnone, List.append_nil, cString_eq_self hbase0]
  · rw [if_pos ⟨hhead.mpr hnone, by omega⟩, if_neg hnone, copyText_eq,
      cString_clearSpaces n.ext_zero, List.append_assoc, List.singleton_append, cString_eq_self]
    · simp [hext0, hbase0]
    · simp only [clearSpaces, List.length_map, hlen', List.length_append, List.length_singleton]
      omega

/-- What is decoded is the name if no space cuts anything off. -/
theorem ShortName.decoded_eq_text_iff (n : ShortName) (rest : List UInt8) :
    n.decoded rest = n.text ↔ n.NoSpaces := by
  rw [n.decoded_eq, ShortName.text, ShortName.NoSpaces, ← beforeSpace_eq_self,
    ← beforeSpace_eq_self]
  have hb := length_beforeSpace_le n.base
  have he := length_beforeSpace_le n.ext
  constructor
  · intro h
    -- the lengths agree, so that nothing can have been cut off
    have hlen := congrArg List.length h
    rw [List.length_append, List.length_append, length_dotted, length_dotted] at hlen
    exact ⟨beforeSpace_of_length (by omega), beforeSpace_of_length (by omega)⟩
  · rintro ⟨h1, h2⟩
    rw [h1, h2]

/-- For all pairs of short names, and whatever follows them in their entries: both are
    decoded faithfully and are not taken for each other, if and only if neither has a
    space inside and they do not read the same with their dots. -/
theorem short_names_faithful_iff (n n' : ShortName) (rest rest' : List UInt8) :
    (n.decoded rest = n.text ∧ n'.decoded rest' = n'.text ∧
      (n.field ≠ n'.field → n.decoded rest ≠ n'.decoded rest')) ↔
    n.NoSpaces ∧ n'.NoSpaces ∧ (n.field ≠ n'.field → n.text ≠ n'.text) := by
  rw [← n.decoded_eq_text_iff rest, ← n'.decoded_eq_text_iff rest']
  constructor
  · rintro ⟨h, h', hne⟩
    exact ⟨h, h', by rwa [h, h'] at hne⟩
  · rintro ⟨h, h', hne⟩
    exact ⟨h, h', by rwa [h, h']⟩

/-- An `A`, a space and the character `c`, without an extension. -/
def spacedName (c : UInt8) (h0 : c ≠ 0) (h : c ≠ 0x20) : ShortName where
  base := [0x41, 0x20, c]
  ext := []
  base_ne := by simp
  base_le := by simp
  ext_le := by simp
  base_zero := by simp [Ne.symm h0]
  ext_zero := by simp
  base_end := by simpa using h
  ext_end := by simp

/-- `A B` and `A C` are both decoded as `A`. -/
theorem space_cuts_short_name :
    ∃ n n' : ShortName, n.field ≠ n'.field ∧ n.decoded [] ≠ n.text ∧
      n.decoded [] = n'.decoded [] := by
  refine ⟨spacedName 0x42 (by decide) (by decide), spacedName 0x43 (by decide) (by decide), ?_⟩
  decide

/-! ## The entries that are compared -/

/-- The names that `find_file_in_dir` compares with the name it looks for, with their
    entries. -/
def listing : List RawEntry → List RawEntry → List (List UInt8 × RawEntry)
  | _, [] => []
  | lfnEntries, dir :: entries =>
    if dir.byte 0 = 0 then []
    else if dir.byte 0 = 0xE5 then listing [] entries
    else if dir.attr = dirAttrLfn then listing (pushLfn lfnEntries dir) entries
    else if dir.attr &&& dirAttrDirectory = 0 then
      (cString (getFileName dir lfnEntries 256), dir) :: listing [] entries
    else listing [] entries

/-- Names that differ in the case of ASCII letters only. -/
def SameName (s t : List UInt8) : Prop := s.map toLower = t.map toLower

instance (s t : List UInt8) : Decidable (SameName s t) := inferInstanceAs (Decidable (_ = _))

theorem strcasecmp_eq_zero_iff {s t : List UInt8} (hs : 0 ∉ s) (ht : 0 ∉ t) :
    strcasecmp s t = 0 ↔ SameName s t := by
  induction s generalizing t with
  | nil =>
    cases t with
    | nil => exact ⟨fun _ => rfl, fun _ => rfl⟩
    | cons d t =>
      have hd : d.toNat ≠ 0 := fun h => ht (by simp [← UInt8.toNat_inj, h])
      simp only [strcasecmp, SameName, List.map_nil, List.map_cons]
      constructor
      · intro h
        omega
      · intro h
        cases h
  | cons c s ih =>
    cases t with
    | nil =>
      have hc : c.toNat ≠ 0 := fun h => hs (by simp [← UInt8.toNat_inj, h])
      simp only [strcasecmp, SameName, List.map_nil, List.map_cons]
      constructor
      · intro h
        omega
      · intro h
        cases h
    | cons d t =>
      rw [List.mem_cons, not_or] at hs ht
      have hrest := ih hs.2 ht.2
      rw [strcasecmp, SameName, List.map_cons, List.map_cons, List.cons.injEq]
      by_cases hcd : toLower c = toLower d
      · rw [if_neg (not_not.mpr hcd), hrest]
        exact ⟨fun h => ⟨hcd, h⟩, fun h => h.2⟩
      · have hne : (toLower c).toNat ≠ (toLower d).toNat := fun h => hcd (UInt8.toNat_inj.mp h)
        rw [if_pos hcd]
        constructor
        · intro h
          omega
        · intro h
          exact absurd h.1 hcd

theorem zero_notMem_cString (text : List UInt8) : 0 ∉ cString text := by
  intro h
  simpa using List.mem_takeWhile_imp h

/-- A pair of the listing: a name without zeros, and a live entry that is neither a
    long-name entry nor a directory. -/
structure Listed (p : List UInt8 × RawEntry) : Prop where
  name : 0 ∉ p.1
  live : p.2.byte 0 ≠ 0 ∧ p.2.byte 0 ≠ 0xE5
  notLfn : p.2.attr ≠ dirAttrLfn
  notDirectory : p.2.attr &&& dirAttrDirectory = 0

theorem mem_listing {lfnEntries entries : List RawEntry} {p : List UInt8 × RawEntry}
    (h : p ∈ listing lfnEntries entries) : Listed p := by
  induction entries generalizing lfnEntries with
  | nil => cases h
  | cons dir entries ih =>
    rw [listing] at h
    split_ifs at h with hend hdel hlfn hdir
    · cases h
    · exact ih h
    · exact ih h
    · obtain rfl | h := List.mem_cons.mp h
      · exact ⟨zero_notMem_cString _, ⟨hend, hdel⟩, hlfn, hdir⟩
      · exact ih h
    · exact ih h

/-- The search returns the first entry of the listing with the name. -/
theorem scanDir_eq {target : List UInt8} (ht : 0 ∉ target) (lfnEntries entries : List RawEntry) :
    scanDir target lfnEntries entries =
      ((listing lfnEntries entries).find? fun p => SameName p.1 target).map Prod.snd := by
  induction entries generalizing lfnEntries with
  | nil => rfl
  | cons dir entries ih =>
    have hname := zero_notMem_cString (getFileName dir lfnEntries 256)
    rw [scanDir, listing]
    by_cases hend : dir.byte 0 = 0
    · rw [if_pos hend, if_pos hend]
      rfl
    rw [if_neg hend, if_neg hend]
    by_cases hdel : dir.byte 0 = 0xE5
    · rw [if_pos hdel, if_pos hdel, ih]
    rw [if_neg hdel, if_neg hdel]
    by_cases hlfn : dir.attr = dirAttrLfn
    · rw [if_pos hlfn, if_pos hlfn, ih]
    rw [if_neg hlfn, if_neg hlfn]
    by_cases hdir : dir.attr &&& dirAttrDirectory = 0
    · rw [if_pos hdir]
      by_cases hsame : SameName (cString (getFileName dir lfnEntries 256)) target
      · rw [if_pos ⟨hdir, (strcasecmp_eq_zero_iff hname ht).mpr hsame⟩,
          List.find?_cons_of_pos (by simpa using hsame)]
        rfl
      · rw [if_neg fun h => hsame ((strcasecmp_eq_zero_iff hname ht).mp h.2),
          List.find?_cons_of_neg (by simpa using hsame), ih]
    · rw [if_neg hdir, if_neg fun h => hdir h.1, ih]

/-! ## Regular files -/

/-- `ATTR_VOLUME_ID`: the entry holds the label of the volume, or is a fragment of a long
    name. -/
abbrev dirAttrVolumeId : UInt8 := 0x08

/-- A live entry of a file: no directory, no volume label and no long-name entry. -/
structure Regular (e : RawEntry) : Prop where
  live : e.byte 0 ≠ 0 ∧ e.byte 0 ≠ 0xE5
  notDirectory : e.attr &&& dirAttrDirectory = 0
  notLabel : e.attr &&& dirAttrVolumeId = 0
  notLfn : e.attr ≠ dirAttrLfn

/-- For every content of the root directory: the search returns regular files only,
    whatever name is looked for, if and only if every entry that is compared and has the
    volume attribute stands behind another one of the same name. -/
theorem only_regular_files_iff (v : Volume) :
    (∀ target, 0 ∉ target → ∀ e, findFileInDir v target = some (some e) → Regular e) ↔
    ∀ entries, rootEntries v = some entries → ∀ pre name label post,
      listing [] entries = pre ++ (name, label) :: post → label.attr &&& dirAttrVolumeId ≠ 0 →
      ∃ p ∈ pre, SameName p.1 name := by
  constructor
  · intro hregular entries hroot pre name label post hlist hlabel
    by_contra hfirst
    push Not at hfirst
    -- then the search for the name of the label returns it
    have hmem : (name, label) ∈ listing [] entries := by
      rw [hlist]
      simp
    have hname := (mem_listing hmem).name
    have hfind : (listing [] entries).find? (fun p => SameName p.1 name) = some (name, label) := by
      rw [hlist, List.find?_append, List.find?_eq_none.mpr (by simpa using hfirst), Option.none_or,
        List.find?_cons_of_pos (by simp [SameName])]
    refine hlabel (hregular name hname label ?_).notLabel
    rw [findFileInDir, hroot, Option.map_some, scanDir_eq hname, hfind]
    rfl
  · intro hhidden target ht e hfound
    obtain ⟨entries, hroot, hscan⟩ := Option.map_eq_some_iff.mp hfound
    rw [scanDir_eq ht] at hscan
    obtain ⟨⟨name, dir⟩, hfind, rfl⟩ := Option.map_eq_some_iff.mp hscan
    obtain ⟨hsame, pre, post, hlist, hpre⟩ := List.find?_eq_some_iff_append.mp hfind
    have hsame : SameName name target := by simpa using hsame
    have hlisted := mem_listing (List.mem_of_find?_eq_some hfind)
    refine ⟨hlisted.live, hlisted.notDirectory, ?_, hlisted.notLfn⟩
    by_contra hlabel
    obtain ⟨p, hp, heq⟩ := hhidden entries hroot pre name dir post hlist hlabel
    have hno := hpre p hp
    simp only [Bool.not_eq_true', decide_eq_false_iff_not] at hno
    exact hno (heq.trans hsame)

/-- A volume with the label `DATA` and no files. -/
def labelVolume : Volume where
  disk := fun a =>
    ([0x44, 0x41, 0x54, 0x41] ++ List.replicate 7 0x20 ++ [0x08] : List UInt8).getD (a - 1024) 0
  bpb := twoClusterVolume.bpb
  partOffset := 0

/-- The label is returned as the entry of a file `data`. -/
theorem volume_label_found : ∃ e, findFileInDir labelVolume [0x64, 0x61, 0x74, 0x61] =
    some (some e) ∧ e.attr = dirAttrVolumeId ∧ ¬Regular e := by
  have hroot : labelVolume.RootInRange := ⟨by decide, by decide⟩
  refine ⟨slice labelVolume.disk 1024 32, ?_, by decide, fun h => ?_⟩
  · rw [findFileInDir, rootEntries_eq hroot]
    rfl
  · exact absurd h.notLabel (by decide)

end Mboot.Fat16
