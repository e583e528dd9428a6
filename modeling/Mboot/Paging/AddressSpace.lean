import Mboot.Paging.Clone

/-!
# A clone is an address space of its own

`Built` collects the directories that the kernel makes from its own one with
`paging_map_page`, while the rest of the kernel runs; `CloneOf` states what a
clone of such a directory is.

* `clone_directory_correct`: `paging_clone_directory` makes a clone.
-/

namespace Mboot.Paging

open Common
open Heap (HeapState Owned Grant room)

/-! ## Accesses through a directory -/

/-- The memory of the directory at `pd` and of the tables it points to. -/
def tableBytes (m : ℕ → UInt8) (pd : ℕ) : Set ℕ :=
  {x | x ∈ pageSet pd ∨ ∃ i < 1024, load 4 m (pd + 4 * i) &&& pagePresent ≠ 0 ∧
    load 4 m (pd + 4 * i) &&& pageSize4MB = 0 ∧
    x ∈ pageSet (load 4 m (pd + 4 * i) &&& 0xFFFFF000)}

/-- The byte at the virtual address `v`. -/
def readVirtual (m : ℕ → UInt8) (cr3 v : ℕ) : Option UInt8 := (translate m cr3 v).map m

/-- A write of `b` at the virtual address `v`. -/
def writeVirtual (m : ℕ → UInt8) (cr3 v : ℕ) (b : UInt8) : ℕ → UInt8 :=
  match translate m cr3 v with
  | none => m
  | some x => Function.update m x b

instance (m : ℕ → UInt8) (cr3 v : ℕ) : Decidable (IsUser m cr3 v) :=
  decidable_of_iff ((walk m cr3 v).any fun e => e.flags &&& pageUser ≠ 0) (by
    simp [IsUser, Option.any_eq_true])

/-- The frames of the pages marked `PAGE_USER`. -/
def userFrames (m : ℕ → UInt8) (cr3 : ℕ) : Set ℕ :=
  {x | ∃ v < 2 ^ 32, IsUser m cr3 v ∧ ∃ e ∈ walk m cr3 v, x ∈ pageSet e.frame}

/-- The number of pages marked `PAGE_USER`. -/
def userPages (m : ℕ → UInt8) (cr3 : ℕ) : ℕ :=
  ((Finset.range (2 ^ 20)).filter fun p => IsUser m cr3 (p * 4096)).card

/-! ## Clones -/

/-- The directory `child` in the memory `m'` is a clone of the directory `pd` in
    the memory `m`. -/
structure CloneOf (m : ℕ → UInt8) (pd : ℕ) (m' : ℕ → UInt8) (child : ℕ) : Prop where
  copied : ∀ v < 2 ^ 32, IsUser m pd v → ∃ e ∈ walk m pd v, ∃ e' ∈ walk m' child v,
    e'.flags = e.flags ∧ ∀ i < 4096, m' (e'.frame + i) = m (e.frame + i)
  distinct : ∀ v < 2 ^ 32, ∀ w < 2 ^ 32, IsUser m pd v → IsUser m pd w →
    ∀ e ∈ walk m' child v, ∀ e' ∈ walk m' child w, e.frame = e'.frame → v / 4096 = w / 4096
  apart : ∀ v < 2 ^ 32, IsUser m pd v → ∀ e ∈ walk m' child v,
    (∀ w < 2 ^ 32, IsUser m pd w → ∀ e' ∈ walk m pd w, e.frame ≠ e'.frame) ∧
      ∀ x ∈ pageSet e.frame, x ∉ tableBytes m pd
  childWrite : ∀ v < 2 ^ 32, ∀ w < 2 ^ 32, IsUser m pd v → IsUser m pd w → ∀ b,
    readVirtual (writeVirtual m' child v b) pd w = readVirtual m' pd w
  parentWrite : ∀ v < 2 ^ 32, ∀ w < 2 ^ 32, IsUser m pd v → IsUser m pd w → ∀ b,
    readVirtual (writeVirtual m' pd v b) child w = readVirtual m' child w
  shared : ∀ v < 2 ^ 32, ¬IsUser m pd v → translate m' child v = translate m pd v
  parent : ∀ x ∈ tableBytes m pd, m' x = m x

/-- Directories made by `paging_create_directory`, or by
    `paging_clone_directory` from such a directory, and any `paging_map_page` calls
    with `PAGE_USER | PAGE_WRITABLE`. `U` is the other memory in use; its owners may
    allocate, free and write as long as they leave this directory and the kernel
    directory at `kd` alone. -/
inductive Built (kd : ℕ) : HeapState → Set ℕ → ℕ → Prop
  | create {h h' : HeapState} {U : Set ℕ} {pd : ℕ} (ho : Owned h U) (hkd : pageSet kd ⊆ U)
      (hk : KernelDirectory h.mem kd) (hcall : pagingCreateDirectory kd h = some (pd, h')) :
      Built kd h' U pd
  | map {h h' : HeapState} {U : Set ℕ} {pd : ℕ} (hb : Built kd h U pd) (vaddr paddr : UInt32)
      (hcall : pagingMapPage pd vaddr.toNat paddr.toNat (pageUser ||| pageWritable) h =
        some ((), h')) : Built kd h' U pd
  | clone {h h' : HeapState} {U : Set ℕ} {pd child : ℕ} (hb : Built kd h U pd)
      (hcall : pagingCloneDirectory kd pd h = some (child, h')) :
      Built kd h' (U ∪ tableBytes h.mem pd ∪ userFrames h'.mem child) child
  | others {h h' : HeapState} {U U' : Set ℕ} {pd : ℕ} (hb : Built kd h U pd)
      (ho : Owned h' (U' ∪ tableBytes h.mem pd)) (hkd : pageSet kd ⊆ U')
      (hdisj : ∀ x ∈ U', x ∉ tableBytes h.mem pd)
      (hsame : ∀ x ∈ pageSet kd ∪ tableBytes h.mem pd, h'.mem x = h.mem x) : Built kd h' U' pd

/-- What is known of a directory that has been built. -/
structure Space (kd : ℕ) (h : HeapState) (U : Set ℕ) (d : Directory) : Prop where
  desc : Describes h.mem d
  owned : Owned h (U ∪ d.pages)
  apart : ∀ x ∈ U, x ∉ d.pages
  kernel : KernelDirectory h.mem kd
  kernel_owned : pageSet kd ⊆ U
  other : ∀ p < 2 ^ 20, ¬Marked (d.pte p) → d.pte p = p * 4096 + 3
  built : Built kd h U d.pd

variable {h h' : HeapState} {U : Set ℕ} {d : Directory} {kd pd : ℕ} {m : ℕ → UInt8}

theorem Describes.tableBytes_eq (hd : Describes m d) : tableBytes m d.pd = d.pages := by
  ext x
  constructor
  · rintro (hx | ⟨i, hi, -, hsmall, hx⟩)
    · exact d.pd_subset hx
    · rw [hd.entries i hi] at hsmall hx
      cases ht : d.table i with
      | none =>
        have hlarge : d.entry i &&& pageSize4MB ≠ 0 := by
          rw [and_size4MB]
          simp only [Directory.entry, ht, fourMiB]
          omega
        exact absurd hsmall hlarge
      | some t =>
        obtain ⟨hal, hlt⟩ := hd.table_aligned i t ht
        simp only [Directory.entry, ht] at hx
        rw [and_table hal hlt] at hx
        exact d.table_subset ht hx
  · rintro (hx | ⟨i, ht⟩)
    · exact .inl hx
    · obtain ⟨hal, hlt⟩ := hd.table_aligned i _ ht
      have hi := hd.table_lt i _ ht
      have hentry : load 4 m (d.pd + 4 * i) = pageOf x + 3 := by
        rw [hd.entries i hi]
        simp only [Directory.entry, ht]
      refine .inr ⟨i, hi, ?_, ?_, ?_⟩
      · rw [hentry, ne_eq, and_present]
        omega
      · rw [hentry]
        by_contra hne
        have := (and_size4MB _).mp hne
        omega
      · rw [hentry, and_table hal hlt]
        rfl

theorem Space.create (ho : Owned h U) (hk : KernelDirectory h.mem kd) (hkd : pageSet kd ⊆ U) :
    Spends room 8218 (pagingCreateDirectory kd) h fun pd h' =>
      Space kd h' U (identity pd) ∧ ∀ x ∈ U, h'.mem x = h.mem x := by
  refine (createDirectory_spends ho hk hkd).self.imp fun pd h' hq => ?_
  obtain ⟨hcall, hf, hkern⟩ := hq
  refine ⟨⟨hkern.describes, ?_, fun x hx => ?_, hk.congr fun x hx => hf.keep x (hkd hx), hkd,
    fun _ _ _ => rfl, .create ho hkd hk hcall⟩, hf.keep⟩
  · rw [identity_pages]
    exact hf.owned
  · rw [identity_pages]
    exact hf.fresh x hx

theorem Space.map (hs : Space kd h U d) {v p : ℕ} (hv : v < 2 ^ 32) (hp : p < 2 ^ 32) :
    Spends room 8218 (pagingMapPage d.pd v p (pageUser ||| pageWritable)) h fun _ h' =>
      ∃ d', d'.pd = d.pd ∧ Space kd h' U d' ∧ (∀ x ∈ U, h'.mem x = h.mem x) ∧
        d'.pte = Function.update d.pte (v / 4096) (pageOf p + 7) := by
  refine (mapPage_spends hs.owned hs.desc Set.subset_union_right hv hp (by decide)).self.imp
    fun _ h' hq => ?_
  obtain ⟨hcall, d', hx, hpte⟩ := hq
  have hpte : d'.pte = Function.update d.pte (v / 4096) (pageOf p + 7) := hpte
  refine ⟨d', hx.pd, ⟨hx.desc, hx.owned.mono ?_, fun x hxU hxd => ?_, ?_, hs.kernel_owned,
    fun q hq hnm => ?_, ?_⟩, fun x hxU => hx.keep x (.inl hxU) (hs.apart x hxU), hpte⟩
  · rintro y (hy | hy)
    · exact .inl (.inl hy)
    · exact .inr hy
  · exact hs.apart x hxU (hx.fresh x hxd (.inl hxU))
  · refine hs.kernel.congr fun x hxk => hx.keep x (.inl (hs.kernel_owned hxk)) ?_
    exact hs.apart x (hs.kernel_owned hxk)
  · by_cases hqv : q = v / 4096
    · have := pageOf_mod p
      rw [hpte, hqv, Function.update_self] at hnm
      simp only [Marked] at hnm
      omega
    · rw [hpte, Function.update_of_ne hqv] at hnm ⊢
      exact hs.other q hq hnm
  · rw [hx.pd]
    refine hs.built.map (UInt32.ofNat v) (UInt32.ofNat p) ?_
    rwa [UInt32.toNat_ofNat_of_lt' hv, UInt32.toNat_ofNat_of_lt' hp]

/-- The rest of the kernel runs. -/
theorem Space.others (hs : Space kd h U d) {U' : Set ℕ} (ho : Owned h' (U' ∪ d.pages))
    (hkd : pageSet kd ⊆ U') (hdisj : ∀ x ∈ U', x ∉ d.pages)
    (hsame : ∀ x ∈ pageSet kd ∪ d.pages, h'.mem x = h.mem x) : Space kd h' U' d where
  desc := hs.desc.congr fun x hx => hsame x (.inr hx)
  owned := ho
  apart := hdisj
  kernel := hs.kernel.congr fun x hx => hsame x (.inl hx)
  kernel_owned := hkd
  other := hs.other
  built := hs.built.others (by rwa [hs.desc.tableBytes_eq]) hkd (by rwa [hs.desc.tableBytes_eq])
    (by rwa [hs.desc.tableBytes_eq])

/-- Memory in use is written. -/
theorem Space.write (hs : Space kd h U d) {mem : ℕ → UInt8}
    (hm : ∀ x, mem x ≠ h.mem x → x ∈ U ∧ x ∉ pageSet kd) : Space kd { h with mem := mem } U d := by
  refine hs.others (hs.owned.write fun x hx => ?_) hs.kernel_owned hs.apart fun x hx => ?_
  · by_contra hne
    exact hx (.inl (hm x hne).1)
  · by_contra hne
    obtain ⟨hxU, hxk⟩ := hm x hne
    obtain hx | hx := hx
    · exact hxk hx
    · exact hs.apart x hxU hx

/-- New memory comes into use. -/
theorem Space.acquire (hs : Space kd h U d) {S : Set ℕ} (ho : Owned h' (U ∪ d.pages ∪ S))
    (hfresh : ∀ x ∈ U ∪ d.pages, x ∉ S) (hkeep : ∀ x ∈ U ∪ d.pages, h'.mem x = h.mem x) :
    Space kd h' (U ∪ S) d := by
  refine hs.others (ho.mono ?_) (hs.kernel_owned.trans Set.subset_union_left) ?_ fun x hx => ?_
  · rintro x ((hx | hx) | hx)
    · exact .inl (.inl hx)
    · exact .inr hx
    · exact .inl (.inr hx)
  · rintro x (hx | hx) hxd
    · exact hs.apart x hx hxd
    · exact hfresh x (.inr hxd) hx
  · obtain hx | hx := hx
    · exact hkeep x (.inl (hs.kernel_owned hx))
    · exact hkeep x (.inr hx)

theorem Space.acquire_page (hs : Space kd h U d) {a : ℕ} (hf : FreshPage h (U ∪ d.pages) a h') :
    Space kd h' (U ∪ pageSet a) d :=
  hs.acquire hf.owned hf.fresh hf.keep

theorem Space.acquire_block (hs : Space kd h U d) {n p : ℕ} (hg : Grant h (U ∪ d.pages) n p h') :
    Space kd h' (U ∪ Set.Ico p (p + n)) d := by
  refine hs.acquire hg.owned (fun x hx hmem => ?_) hg.keep
  have := hg.fresh x hx
  rw [Set.mem_Ico] at hmem
  omega

theorem Describes.mem_userFrames (hd : Describes m d) {x : ℕ} :
    x ∈ userFrames m d.pd ↔ ∃ p < 2 ^ 20, Marked (d.pte p) ∧ x ∈ pageSet (pageOf (d.pte p)) := by
  constructor
  · rintro ⟨v, hv, hu, e, he, hx⟩
    have hm := (hd.isUser_iff hv).mp hu
    rw [hd.walk_user hv hm, Option.mem_some_iff] at he
    subst he
    exact ⟨v / 4096, by omega, hm, hx⟩
  · rintro ⟨p, hp, hm, hx⟩
    have hdiv : p * 4096 / 4096 = p := Nat.mul_div_cancel _ (by norm_num)
    have hm' : Marked (d.pte (p * 4096 / 4096)) := by rwa [hdiv]
    have hwalk := hd.walk_user (v := p * 4096) (by omega) hm'
    rw [hdiv] at hwalk
    exact ⟨p * 4096, by omega, (hd.isUser_iff (by omega)).mpr hm', _, hwalk, hx⟩

theorem Describes.isUser_page (hd : Describes m d) {p : ℕ} (hp : p < 2 ^ 20) :
    IsUser m d.pd (p * 4096) ↔ Marked (d.pte p) := by
  rw [hd.isUser_iff (by omega), Nat.mul_div_cancel _ (by norm_num)]

theorem Describes.userPages_le (hd : Describes m d) {S : Finset ℕ}
    (hS : ∀ p < 2 ^ 20, Marked (d.pte p) → p ∈ S) : userPages m d.pd ≤ S.card := by
  refine Finset.card_le_card fun p hp => ?_
  obtain ⟨hlt, hu⟩ := Finset.mem_filter.mp hp
  have hlt := Finset.mem_range.mp hlt
  exact hS p hlt ((hd.isUser_page hlt).mp hu)

theorem Space.parent (hs : Space kd h U d) : Parent h (U ∪ d.pages) d :=
  ⟨hs.desc, Set.subset_union_right⟩

theorem Space.clone_spends (hs : Space kd h U d) :
    Spends room (8218 + cloneCost d) (pagingCloneDirectory kd d.pd) h fun child h' =>
      ∃ c, c.pd = child ∧ Cloned h (U ∪ d.pages) d c (2 ^ 20) h' :=
  cloneDirectory_spends hs.parent hs.owned hs.kernel (hs.kernel_owned.trans Set.subset_union_left)

section

variable {c : Directory} {h₀ : HeapState} {W : Set ℕ} {p : ℕ}

theorem Cloned.marked_iff (hc : Cloned h₀ W d c (2 ^ 20) h) (hp : p < 2 ^ 20) :
    Marked (c.pte p) ↔ Marked (d.pte p) := by
  by_cases hm : Marked (d.pte p)
  · have := hc.flags p hp hm
    simp only [Marked] at hm ⊢
    omega
  · have := hc.other p hp fun hpm => hm hpm.2
    simp only [Marked] at hm ⊢
    omega

theorem Cloned.userFrames_eq (hc : Cloned h₀ W d c (2 ^ 20) h) :
    userFrames h.mem c.pd = framesBelow d c (2 ^ 20) := by
  ext x
  rw [hc.desc.mem_userFrames]
  constructor
  · rintro ⟨p, hp, hm, hx⟩
    exact ⟨p, hp, (hc.marked_iff hp).mp hm, hx⟩
  · rintro ⟨p, hp, hm, hx⟩
    exact ⟨p, hp, (hc.marked_iff hp).mpr hm, hx⟩

/-- The clone of a space is a space. -/
theorem Space.clone (hs : Space kd h₀ U d) (hcall : pagingCloneDirectory kd d.pd h₀ = some (c.pd, h))
    (hc : Cloned h₀ (U ∪ d.pages) d c (2 ^ 20) h) :
    Space kd h (U ∪ d.pages ∪ userFrames h.mem c.pd) c := by
  have hkd : pageSet kd ⊆ U ∪ d.pages := hs.kernel_owned.trans Set.subset_union_left
  have hbuilt : Built kd h (U ∪ d.pages ∪ userFrames h.mem c.pd) c.pd := by
    rw [← hs.desc.tableBytes_eq]
    exact hs.built.clone hcall
  rw [hc.userFrames_eq] at hbuilt ⊢
  refine ⟨hc.desc, hc.owned.mono ?_, ?_, hs.kernel.congr fun x hx => hc.keep x (hkd hx),
    hkd.trans Set.subset_union_left, fun p hp hm => ?_, hbuilt⟩
  · rintro x ((hx | hx) | hx)
    · exact .inl (.inl hx)
    · exact .inr hx
    · exact .inl (.inr hx)
  · rintro x (hx | hx) hxc
    · exact hc.pages_fresh x hxc hx
    · exact (hc.frame_fresh x hx).2 hxc
  · exact hc.other p hp fun hpm => hm ((hc.marked_iff hp).mpr hpm.2)

end

/-- The invariant of the directories that are built. -/
theorem Built.space (hb : Built kd h U pd) : ∃ d, d.pd = pd ∧ Space kd h U d := by
  induction hb with
  | @create h h' U pd ho hkd hk hcall =>
    exact ⟨identity pd, rfl, ((Space.create ho hk hkd).post pd h' hcall).1.1⟩
  | @map h h' U pd hb vaddr paddr hcall ih =>
    obtain ⟨d, rfl, hs⟩ := ih
    obtain ⟨⟨d', hpd, hs', -, -⟩, -⟩ := (hs.map vaddr.toNat_lt paddr.toNat_lt).post _ h' hcall
    exact ⟨d', hpd, hs'⟩
  | @clone h h' U pd child hb hcall ih =>
    obtain ⟨d, rfl, hs⟩ := ih
    obtain ⟨⟨c, rfl, hc⟩, -⟩ := hs.clone_spends.post child h' hcall
    rw [hs.desc.tableBytes_eq]
    exact ⟨c, rfl, hs.clone hcall hc⟩
  | @others h h' U U' pd hb ho hkd hdisj hsame ih =>
    obtain ⟨d, rfl, hs⟩ := ih
    rw [hs.desc.tableBytes_eq] at ho hdisj hsame
    exact ⟨d, rfl, hs.others ho hkd hdisj hsame⟩

/-! ## The clone -/

theorem Describes.readVirtual {m' : ℕ → UInt8} (hd : Describes m d) {v : ℕ} (hv : v < 2 ^ 32)
    (hpages : ∀ x ∈ d.pages, m' x = m x) :
    readVirtual m' d.pd v = some (m' (pageOf (d.pte (v / 4096)) + v % 4096)) := by
  rw [Paging.readVirtual, (hd.congr hpages).translate hv]
  rfl

theorem Describes.writeVirtual (hd : Describes m d) {v : ℕ} (hv : v < 2 ^ 32) (b : UInt8) :
    writeVirtual m d.pd v b =
      Function.update m (pageOf (d.pte (v / 4096)) + v % 4096) b := by
  rw [Paging.writeVirtual, hd.translate hv]

section

variable {c : Directory} {h₀ : HeapState} {W : Set ℕ} {p : ℕ}

/-- An address in the child's frame for a marked page. -/
theorem Cloned.frame_mem (hp : p < 2 ^ 20) (hm : Marked (d.pte p)) {i : ℕ} (hi : i < 4096) :
    pageOf (c.pte p) + i ∈ framesBelow d c (2 ^ 20) :=
  ⟨p, hp, hm, add_mem_pageSet (pageOf_mod _) hi⟩

/-- A page that is not copied is shared. -/
theorem Cloned.translate_other (hc : Cloned h₀ W d c (2 ^ 20) h) {v : ℕ} (hv : v < 2 ^ 32)
    (hm : ¬Marked (d.pte (v / 4096))) : translate h.mem c.pd v = some v := by
  rw [hc.desc.translate hv, hc.other _ (by omega) fun hpm => hm hpm.2]
  simp only [pageOf, Option.some.injEq]
  omega

/-- A page that is copied, with memory `x` in use at its own address, is not
    mapped to itself. -/
theorem Cloned.translate_marked_ne (hc : Cloned h₀ W d c (2 ^ 20) h) {v x : ℕ} (hv : v < 2 ^ 32)
    (hm : Marked (d.pte (v / 4096))) (hx : x ∈ W) (hpage : x / 4096 = v / 4096) :
    translate h.mem c.pd v ≠ some v := by
  rw [hc.desc.translate hv]
  intro heq
  have hself : pageOf (c.pte (v / 4096)) + x % 4096 = x := by
    simp only [pageOf, Option.some.injEq] at heq ⊢
    omega
  have hmem := Cloned.frame_mem (c := c) (by omega) hm (Nat.mod_lt x (by norm_num : 4096 > 0))
  rw [hself] at hmem
  exact (hc.frame_fresh x hmem).1 hx

/-- When all pages have been visited, the child is a clone. -/
theorem Cloned.cloneOf (hc : Cloned h₀ W d c (2 ^ 20) h) (hpar : Parent h₀ W d)
    (hframes : ∀ p < 2 ^ 20, Marked (d.pte p) → pageSet (pageOf (d.pte p)) ⊆ W)
    (hother : ∀ p < 2 ^ 20, ¬Marked (d.pte p) → d.pte p = p * 4096 + 3) :
    CloneOf h₀.mem d.pd h.mem c.pd := by
  have hd := hpar.desc
  have hd' := hpar.desc_of_cloned hc
  have hpage : ∀ v < 2 ^ 32, v / 4096 < 2 ^ 20 := fun v hv => by omega
  have hsrc : ∀ v < 2 ^ 32, Marked (d.pte (v / 4096)) →
      pageOf (d.pte (v / 4096)) + v % 4096 ∈ W := fun v hv hm =>
    hframes _ (hpage v hv) hm (add_mem_pageSet (pageOf_mod _) (Nat.mod_lt _ (by norm_num)))
  have hdst : ∀ v < 2 ^ 32, Marked (d.pte (v / 4096)) →
      pageOf (c.pte (v / 4096)) + v % 4096 ∈ framesBelow d c (2 ^ 20) := fun v hv hm =>
    Cloned.frame_mem (hpage v hv) hm (Nat.mod_lt _ (by norm_num))
  have hwalk : ∀ v < 2 ^ 32, Marked (d.pte (v / 4096)) → walk h.mem c.pd v =
      some ⟨pageOf (c.pte (v / 4096)), c.pte (v / 4096) % 4096⟩ := fun v hv hm =>
    hc.desc.walk_user hv ((hc.marked_iff (hpage v hv)).mpr hm)
  constructor
  · intro v hv hu
    have hm := (hd.isUser_iff hv).mp hu
    exact ⟨_, hd.walk_user hv hm, _, hwalk v hv hm, hc.flags _ (hpage v hv) hm,
      fun i hi => hc.same _ (hpage v hv) hm i hi
        (hframes _ (hpage v hv) hm (add_mem_pageSet (pageOf_mod _) hi))⟩
  · intro v hv w hw hu hu' e he e' he' heq
    have hm := (hd.isUser_iff hv).mp hu
    have hm' := (hd.isUser_iff hw).mp hu'
    rw [hwalk v hv hm, Option.mem_some_iff] at he
    rw [hwalk w hw hm', Option.mem_some_iff] at he'
    subst he he'
    exact hc.distinct _ (hpage v hv) _ (hpage w hw) hm hm' heq
  · intro v hv hu e he
    have hm := (hd.isUser_iff hv).mp hu
    rw [hwalk v hv hm, Option.mem_some_iff] at he
    subst he
    have hfresh : ∀ x ∈ pageSet (pageOf (c.pte (v / 4096))), x ∉ W := fun x hx =>
      (hc.frame_fresh x ⟨_, hpage v hv, hm, hx⟩).1
    refine ⟨fun w hw hu' e' he' heq => ?_, fun x hx => ?_⟩
    · have hm' := (hd.isUser_iff hw).mp hu'
      rw [hd.walk_user hw hm', Option.mem_some_iff] at he'
      subst he'
      dsimp only at heq
      refine hfresh _ (add_mem_pageSet (i := 0) (pageOf_mod _) (by norm_num)) ?_
      rw [heq]
      exact hframes _ (hpage w hw) hm' (add_mem_pageSet (pageOf_mod _) (by norm_num))
    · rw [hd.tableBytes_eq]
      exact fun hxd => hfresh x hx (hpar.pages hxd)
  · intro v hv w hw hu hu' b
    have hm := (hd.isUser_iff hv).mp hu
    have hm' := (hd.isUser_iff hw).mp hu'
    have hfresh := (hc.frame_fresh _ (hdst v hv hm)).1
    have hne : ∀ x ∈ W, x ≠ pageOf (c.pte (v / 4096)) + v % 4096 := fun x hx heq =>
      hfresh (heq ▸ hx)
    rw [hc.desc.writeVirtual hv, hd'.readVirtual hw fun x hx =>
      Function.update_of_ne (hne x (hpar.pages hx)) _ _, hd'.readVirtual hw fun x _ => rfl,
      Function.update_of_ne (hne _ (hsrc w hw hm'))]
  · intro v hv w hw hu hu' b
    have hm := (hd.isUser_iff hv).mp hu
    have hm' := (hd.isUser_iff hw).mp hu'
    have hfresh := (hc.frame_fresh _ (hdst w hw hm')).1
    have hpages : ∀ x ∈ c.pages, x ≠ pageOf (d.pte (v / 4096)) + v % 4096 := fun x hx heq =>
      hc.pages_fresh x hx (heq ▸ hsrc v hv hm)
    rw [hd'.writeVirtual hv, hc.desc.readVirtual hw fun x hx =>
      Function.update_of_ne (hpages x hx) _ _, hc.desc.readVirtual hw fun x _ => rfl,
      Function.update_of_ne fun heq => hfresh (by rw [heq]; exact hsrc v hv hm)]
  · intro v hv hu
    have hm : ¬Marked (d.pte (v / 4096)) := fun hm => hu ((hd.isUser_iff hv).mpr hm)
    rw [hc.desc.translate hv, hd.translate hv, hother _ (hpage v hv) hm,
      hc.other _ (hpage v hv) fun hpm => hm hpm.2]
  · intro x hx
    rw [hd.tableBytes_eq] at hx
    exact hc.keep x (hpar.pages hx)

end

/-- The cost of a clone: two requests for each marked page. -/
theorem Describes.cloneCost_eq (hd : Describes m d) :
    cloneCost d = 2 * 8218 * userPages m d.pd := by
  have hcard : ∀ p ∈ Finset.range (2 ^ 20),
      pageCost d p = if IsUser m d.pd (p * 4096) then 2 * 8218 else 0 := by
    intro p hp
    simp only [pageCost, hd.isUser_page (Finset.mem_range.mp hp)]
  rw [cloneCost, sum_range_mul (pageCost d), show 1024 * 1024 = 2 ^ 20 by norm_num, Finset.sum_congr rfl hcard,
    Finset.sum_ite, Finset.sum_const_zero, Finset.sum_const, userPages, smul_eq_mul, add_zero,
    Nat.mul_comm]

/-- For every directory that is built, and every content of the memory: if no byte of the
    frames of its `PAGE_USER` pages is free memory, which `kmalloc` would hand out,
    `paging_clone_directory` makes a clone. It returns if the heap has room. -/
theorem clone_directory_correct (hb : Built kd h U pd) (hframes : Owned h (userFrames h.mem pd)) :
    (∀ child h', pagingCloneDirectory kd pd h = some (child, h') →
      CloneOf h.mem pd h'.mem child) ∧
    (8218 * (1 + 2 * userPages h.mem pd) ≤ room h → (pagingCloneDirectory kd pd h).isSome) := by
  obtain ⟨d, rfl, hs⟩ := hb.space
  -- the frames outside of the tables join the memory in use
  obtain ⟨V, hV⟩ : ∃ V, V = U ∪ userFrames h.mem d.pd \ d.pages := ⟨_, rfl⟩
  have hs' : Space kd h V d := by
    subst hV
    refine hs.others ((hs.owned.union hframes).mono ?_)
      (hs.kernel_owned.trans Set.subset_union_left) ?_ fun _ _ => rfl
    · rintro x ((hx | hx) | hx)
      · exact .inl (.inl hx)
      · exact .inr hx.1
      · exact .inl (.inr hx)
    · rintro x (hx | hx)
      · exact hs.apart x hx
      · exact hx.2
  have hused : ∀ p < 2 ^ 20, Marked (d.pte p) → pageSet (pageOf (d.pte p)) ⊆ V ∪ d.pages := by
    intro p hp hm x hx
    by_cases hpages : x ∈ d.pages
    · exact .inr hpages
    · rw [hV]
      exact .inl (.inr ⟨hs.desc.mem_userFrames.mpr ⟨p, hp, hm, hx⟩, hpages⟩)
  constructor
  · intro child h' hcall
    obtain ⟨⟨c, rfl, hc⟩, -⟩ := hs'.clone_spends.post child h' hcall
    exact hc.cloneOf hs'.parent hused hs.other
  · intro hroom
    refine hs'.clone_spends.returns ?_
    rw [hs.desc.cloneCost_eq]
    omega

/-- A machine with 128 MiB: the heap starts at 1 MiB. -/
def bootHeap : HeapState := ⟨fun _ => 0, 0x100000, 0x8000000, 0, 0x100000⟩

/-- Memory below 1 MiB is not in the heap. -/
def lowMemory : Set ℕ := {x | x < 0x100000}

theorem bootHeap_owned : Owned bootHeap lowMemory where
  region := by decide
  top := by decide
  used := ⟨[], Heap.Fresh.inv ⟨rfl, rfl, by decide⟩, fun _ hx => ⟨nofun, .inl hx⟩⟩

/-- A process that sees the text screen at 1 GiB, and its clone. -/
theorem clone_directory_correct_screen :
    ∃ kd h U pd child h', Built kd h U pd ∧ Owned h (userFrames h.mem pd) ∧
      translate h.mem pd 0x40000010 = some 0xB8010 ∧ IsUser h.mem pd 0x40000010 ∧
      pagingCloneDirectory kd pd h = some (child, h') ∧ CloneOf h.mem pd h'.mem child := by
  have hroom0 : room bootHeap = 0x7F00000 := rfl
  have hinit := pagingInit_spends bootHeap_owned
  obtain ⟨kd, h1, hcall1, ⟨ho1, hk1, -⟩, hroom1⟩ := hinit.result (by omega)
  have hkd : pageSet kd ⊆ lowMemory ∪ pageSet kd := Set.subset_union_right
  have hcreate := Space.create ho1 hk1 hkd
  obtain ⟨pd, h2, hcall2, ⟨hs2, -⟩, hroom2⟩ := hcreate.result (by omega)
  have hmap := hs2.map (v := 0x40000000) (p := 0xB8000) (by norm_num) (by norm_num)
  obtain ⟨_, h3, hcall3, ⟨d, hpd, hs3, -, hpte⟩, hroom3⟩ := hmap.result (by omega)
  have hpd : d.pd = pd := hpd
  subst hpd
  have hb3 : Built kd h3 (lowMemory ∪ pageSet kd) d.pd :=
    .map (.create ho1 hkd hk1 hcall2) 0x40000000 0xB8000 hcall3
  have hentry : d.pte 0x40000 = 0xB8007 := by
    rw [hpte]
    exact Function.update_self ..
  -- one page is marked
  have hmarked : ∀ p, Marked (d.pte p) → p = 0x40000 := by
    intro p hm
    by_contra hne
    rw [hpte, Function.update_of_ne (by simpa using hne)] at hm
    simp only [Marked, identity] at hm
    omega
  have hframes : Owned h3 (userFrames h3.mem d.pd) := by
    refine hs3.owned.mono fun x hx => .inl (.inl ?_)
    obtain ⟨p, -, hm, hx⟩ := hs3.desc.mem_userFrames.mp hx
    rw [hmarked p hm, hentry] at hx
    have hx : pageOf x = pageOf 0xB8007 := hx
    simp only [pageOf] at hx
    simp only [lowMemory, Set.mem_ofPred_eq]
    omega
  have hcount : userPages h3.mem d.pd ≤ 1 :=
    hs3.desc.userPages_le (S := {0x40000}) fun p _ hm => Finset.mem_singleton.mpr (hmarked p hm)
  obtain ⟨hclone, hreturns⟩ := clone_directory_correct hb3 hframes
  obtain ⟨⟨child, h4⟩, hcall4⟩ := Option.isSome_iff_exists.mp (hreturns (by omega))
  have hv : 0x40000010 < 2 ^ 32 := by norm_num
  refine ⟨kd, h3, _, d.pd, child, h4, hb3, hframes, ?_, ?_, hcall4, hclone child h4 hcall4⟩
  · rw [hs3.desc.translate hv, show 0x40000010 / 4096 = 0x40000 by norm_num, hentry]
    rfl
  · rw [hs3.desc.isUser_iff hv, show 0x40000010 / 4096 = 0x40000 by norm_num, hentry]

end Mboot.Paging
