import Mboot.Paging.AddressSpace

/-!
# `paging_map_page` changes one page of one directory

`Directories` collects the directories that a kernel has at the same time: made by
`paging_create_directory` and `paging_clone_directory`, changed by `paging_map_page` with any
flags, while the rest of the kernel runs. All of them start as copies of the kernel directory.

* `Tables`: no page of a directory or of its tables belongs to another directory, to the kernel
  directory or to anything else in use.
* `map_page_correct`: `paging_map_page` changes the translation of one page of one directory.

The flags are not masked (line 104), so that flags above the low 12 bits reach the frame:
`map_page_moves_frame`.
-/

namespace Mboot.Paging

open Common
open Heap (HeapState Owned room)

/-! ## What is to be shown -/

/-- The flags of an entry that decide who may access the page. -/
abbrev accessFlags : ℕ := pagePresent ||| pageWritable ||| pageUser

/-- The page of `vaddr` has been mapped in the directory at `pd`, from the memory `m` to the
    memory `m'`. `P` are the directories, and `kd` is the kernel directory. -/
structure MapsPage (m m' : ℕ → UInt8) (kd : ℕ) (P : Set ℕ) (pd vaddr paddr flags : ℕ) : Prop where
  mapped : ∀ v < 2 ^ 32, v / 4096 = vaddr / 4096 →
    walk m' pd v = some ⟨pageOf (paddr ||| flags), (flags ||| pagePresent) % 4096⟩
  kept : ∀ v < 2 ^ 32, v / 4096 ≠ vaddr / 4096 → ∃ e ∈ walk m pd v, ∃ e' ∈ walk m' pd v,
    e'.frame = e.frame ∧ e'.flags &&& accessFlags = e.flags &&& accessFlags
  others : ∀ pd' ∈ P, pd' ≠ pd → ∀ v < 2 ^ 32, walk m' pd' v = walk m pd' v
  kernel : ∀ v < 2 ^ 32, walk m' kd v = walk m kd v

/-- The memory of the directories `P` and of their tables. -/
def tablesOf (m : ℕ → UInt8) (P : Set ℕ) : Set ℕ := {x | ∃ pd ∈ P, x ∈ tableBytes m pd}

/-- The directories `P` of a kernel whose own directory is at `kd`. `U` is the other memory in
    use; its owners may allocate, free and write as long as they leave the directories alone, and
    may give up directories. -/
inductive Directories (kd : ℕ) : HeapState → Set ℕ → Set ℕ → Prop
  | start {h : HeapState} {U : Set ℕ} (ho : Owned h U) (hkd : pageSet kd ⊆ U)
      (hk : KernelDirectory h.mem kd) : Directories kd h U ∅
  | create {h h' : HeapState} {U P : Set ℕ} {pd : ℕ} (hd : Directories kd h U P)
      (hcall : pagingCreateDirectory kd h = some (pd, h')) : Directories kd h' U (insert pd P)
  | map {h h' : HeapState} {U P : Set ℕ} {pd : ℕ} (hd : Directories kd h U P) (hpd : pd ∈ P)
      (vaddr paddr flags : UInt32)
      (hcall : pagingMapPage pd vaddr.toNat paddr.toNat flags.toNat h = some ((), h')) :
      Directories kd h' U P
  | clone {h h' : HeapState} {U P : Set ℕ} {pd child : ℕ} (hd : Directories kd h U P)
      (hpd : pd ∈ P) (hcall : pagingCloneDirectory kd pd h = some (child, h')) :
      Directories kd h' (U ∪ userFrames h'.mem child) (insert child P)
  | others {h h' : HeapState} {U U' P P' : Set ℕ} (hd : Directories kd h U P) (hsub : P' ⊆ P)
      (ho : Owned h' (U' ∪ tablesOf h.mem P')) (hkd : pageSet kd ⊆ U')
      (hdisj : ∀ x ∈ U', x ∉ tablesOf h.mem P')
      (hsame : ∀ x ∈ pageSet kd ∪ tablesOf h.mem P', h'.mem x = h.mem x) :
      Directories kd h' U' P'

/-! ## Walks -/

variable {h h' : HeapState} {U P : Set ℕ} {d : ℕ → Directory} {kd pd : ℕ} {m : ℕ → UInt8}

theorem and_accessFlags (n : ℕ) : n &&& accessFlags = n % 8 := Nat.and_two_pow_sub_one_eq_mod n 3

/-- The frame and the access to a page, from its entry. A large page has `PAGE_SIZE_4MB` on
    top. -/
theorem Describes.walk_access {d : Directory} (hd : Describes m d) {v : ℕ} (hv : v < 2 ^ 32) :
    ∃ e ∈ walk m d.pd v, e.frame = pageOf (d.pte (v / 4096)) ∧
      e.flags &&& accessFlags = d.pte (v / 4096) &&& accessFlags := by
  cases ht : d.table (v / 4096 / 1024) with
  | none =>
    obtain ⟨hwalk, hpte⟩ := hd.walk_large hv ht
    refine ⟨_, hwalk, ?_, ?_⟩
    · rw [hpte]
      simp only [pageOf]
      omega
    · rw [hpte, and_accessFlags, and_accessFlags]
      simp only [pageOf]
      omega
  | some t =>
    refine ⟨_, hd.walk_table hv ht, rfl, ?_⟩
    rw [and_accessFlags, and_accessFlags]
    exact Nat.mod_mod_of_dvd _ (by norm_num)

theorem pageOf_entry {p flags : ℕ} (hp : p < 2 ^ 32) (hfl : flags < 2 ^ 32) :
    pageOf ((p &&& 0xFFFFF000) ||| flags ||| pagePresent) = pageOf (p ||| flags) := by
  rw [← and_frame (mapEntry_lt p hfl), ← and_frame (Nat.or_lt_two_pow hp hfl), Nat.and_or_distrib_right,
    Nat.and_or_distrib_right, Nat.and_or_distrib_right, Nat.and_assoc, Nat.and_self,
    show pagePresent &&& 0xFFFFF000 = 0 by decide, Nat.or_zero]

theorem entry_mod (p flags : ℕ) :
    ((p &&& 0xFFFFF000) ||| flags ||| pagePresent) % 4096 = (flags ||| pagePresent) % 4096 := by
  rw [Nat.or_assoc, ← and_low_twelve, Nat.and_or_distrib_right, Nat.and_assoc,
    show 0xFFFFF000 &&& 0xFFF = 0 by decide, Nat.and_zero, Nat.zero_or, and_low_twelve]

/-! ## The invariant -/

/-- The memory of the directories that `d` describes. -/
def pagesOf (d : ℕ → Directory) (P : Set ℕ) : Set ℕ := {x | ∃ pd ∈ P, x ∈ (d pd).pages}

/-- The memory holds the directories `d pd`, each on pages of its own. -/
structure Tables (kd : ℕ) (h : HeapState) (U P : Set ℕ) (d : ℕ → Directory) : Prop where
  desc : ∀ pd ∈ P, Describes h.mem (d pd)
  pd_eq : ∀ pd ∈ P, (d pd).pd = pd
  owned : Owned h (U ∪ pagesOf d P)
  apart : ∀ x ∈ U, x ∉ pagesOf d P
  disjoint : ∀ pd ∈ P, ∀ pd' ∈ P, ∀ x ∈ (d pd).pages, x ∈ (d pd').pages → pd = pd'
  kernel : KernelDirectory h.mem kd
  kernel_owned : pageSet kd ⊆ U

theorem Tables.tablesOf_eq (ht : Tables kd h U P d) {P' : Set ℕ} (hsub : P' ⊆ P) :
    tablesOf h.mem P' = pagesOf d P' := by
  ext x
  refine exists_congr fun pd => and_congr_right fun hpd => ?_
  rw [← (ht.desc pd (hsub hpd)).tableBytes_eq, ht.pd_eq pd (hsub hpd)]

/-- One directory is added or changed, and its new pages were not in use. -/
theorem Tables.update (ht : Tables kd h U P d) {c : Directory} {U' : Set ℕ}
    (hdesc : Describes h'.mem c) (ho : Owned h' (U' ∪ (pagesOf d P ∪ c.pages))) (hU : U ⊆ U')
    (hapart : ∀ x ∈ U', x ∉ pagesOf d P ∧ x ∉ c.pages)
    (hfresh : ∀ pd ∈ P, pd ≠ c.pd → ∀ x ∈ (d pd).pages, x ∉ c.pages)
    (hkeep : ∀ pd ∈ P, pd ≠ c.pd → ∀ x ∈ (d pd).pages, h'.mem x = h.mem x)
    (hkern : ∀ x ∈ pageSet kd, h'.mem x = h.mem x) :
    Tables kd h' U' (insert c.pd P) (Function.update d c.pd c) := by
  have hold : ∀ pd ∈ insert c.pd P, pd ≠ c.pd → pd ∈ P := fun pd hpd hne =>
    (Set.mem_insert_iff.mp hpd).resolve_left hne
  have hpages : pagesOf (Function.update d c.pd c) (insert c.pd P) ⊆ pagesOf d P ∪ c.pages := by
    rintro x ⟨pd, hpd, hx⟩
    by_cases hpc : pd = c.pd
    · rw [hpc, Function.update_self] at hx
      exact .inr hx
    · rw [Function.update_of_ne hpc] at hx
      exact .inl ⟨pd, hold pd hpd hpc, hx⟩
  refine ⟨fun pd hpd => ?_, fun pd hpd => ?_, ho.mono (Set.union_subset_union_right U' hpages),
    fun x hx hmem => ?_, fun pd hpd pd' hpd' x hx hx' => ?_, ht.kernel.congr hkern,
    ht.kernel_owned.trans hU⟩
  · by_cases hpc : pd = c.pd
    · rw [hpc, Function.update_self]
      exact hdesc
    · rw [Function.update_of_ne hpc]
      exact (ht.desc pd (hold pd hpd hpc)).congr (hkeep pd (hold pd hpd hpc) hpc)
  · by_cases hpc : pd = c.pd
    · rw [hpc, Function.update_self]
    · rw [Function.update_of_ne hpc]
      exact ht.pd_eq pd (hold pd hpd hpc)
  · obtain ⟨hx1, hx2⟩ := hapart x hx
    exact (hpages hmem).elim hx1 hx2
  · by_cases hpc : pd = c.pd <;> by_cases hpc' : pd' = c.pd
    · rw [hpc, hpc']
    · rw [hpc, Function.update_self] at hx
      rw [Function.update_of_ne hpc'] at hx'
      exact absurd hx (hfresh pd' (hold pd' hpd' hpc') hpc' x hx')
    · rw [Function.update_of_ne hpc] at hx
      rw [hpc', Function.update_self] at hx'
      exact absurd hx' (hfresh pd (hold pd hpd hpc) hpc x hx)
    · rw [Function.update_of_ne hpc] at hx
      rw [Function.update_of_ne hpc'] at hx'
      exact ht.disjoint pd (hold pd hpd hpc) pd' (hold pd' hpd' hpc') x hx hx'

theorem pages_subset_pagesOf (hpd : pd ∈ P) : (d pd).pages ⊆ pagesOf d P := fun _ hx =>
  ⟨pd, hpd, hx⟩

/-- A page of the directory itself. -/
theorem Tables.pd_mem (ht : Tables kd h U P d) (hpd : pd ∈ P) : pd ∈ pagesOf d P := by
  refine pages_subset_pagesOf hpd ((d pd).pd_subset ?_)
  have hal := (ht.desc pd hpd).pd_aligned
  rw [ht.pd_eq pd hpd] at hal ⊢
  exact (mem_pageSet hal).mpr (by omega)

theorem Tables.create (ht : Tables kd h U P d) :
    Spends room 8218 (pagingCreateDirectory kd) h fun pd h' =>
      pd ∉ P ∧ Tables kd h' U (insert pd P) (Function.update d pd (identity pd)) := by
  have hkd := ht.kernel_owned.trans (Set.subset_union_left (t := pagesOf d P))
  refine (createDirectory_spends ht.owned ht.kernel hkd).imp fun pd h' hq => ?_
  obtain ⟨hf, hkern⟩ := hq
  have hnew : ∀ x ∈ U ∪ pagesOf d P, x ∉ (identity pd).pages := by
    rw [identity_pages]
    exact hf.fresh
  refine ⟨fun hpd => ?_, ht.update (c := identity pd) hkern.describes ?_ subset_rfl
    (fun x hx => ⟨ht.apart x hx, hnew x (.inl hx)⟩)
    (fun pd' hpd' _ x hx => hnew x (.inr (pages_subset_pagesOf hpd' hx)))
    (fun pd' hpd' _ x hx => hf.keep x (.inr (pages_subset_pagesOf hpd' hx)))
    fun x hx => hf.keep x (hkd hx)⟩
  · exact hf.fresh pd (.inr (ht.pd_mem hpd)) ((mem_pageSet hf.aligned).mpr (by omega))
  · rw [identity_pages, ← Set.union_assoc]
    exact hf.owned

/-- `paging_map_page` writes to the pages of its directory and to a fresh page. -/
theorem Tables.map (ht : Tables kd h U P d) (hpd : pd ∈ P) {v p flags : ℕ} (hv : v < 2 ^ 32)
    (hp : p < 2 ^ 32) (hfl : flags < 2 ^ 32) :
    Spends room 8218 (pagingMapPage pd v p flags) h fun _ h' =>
      (∃ d', Tables kd h' U P d') ∧ MapsPage h.mem h'.mem kd P pd v p flags := by
  have hdesc := ht.desc pd hpd
  have hat := ht.pd_eq pd hpd
  have hsub : (d pd).pages ⊆ U ∪ pagesOf d P :=
    (pages_subset_pagesOf hpd).trans Set.subset_union_right
  have hspends := mapPage_spends_entry (p := p) ht.owned hdesc hsub hv hfl
  rw [hat] at hspends
  refine hspends.imp fun _ h' hq => ?_
  obtain ⟨c, t, hx, htable, hpte⟩ := hq
  have hc : c.pd = pd := hx.pd.trans hat
  -- the pages of the others are in use, and are not pages of this directory
  have hnot : ∀ pd' ∈ P, pd' ≠ c.pd → ∀ x ∈ (d pd').pages, x ∉ (d pd).pages :=
    fun pd' hpd' hne x hx' hxd => hne ((ht.disjoint pd' hpd' pd hpd x hx' hxd).trans hc.symm)
  have hkeep : ∀ pd' ∈ P, pd' ≠ c.pd → ∀ x ∈ (d pd').pages, h'.mem x = h.mem x :=
    fun pd' hpd' hne x hx' =>
      hx.keep x (.inr (pages_subset_pagesOf hpd' hx')) (hnot pd' hpd' hne x hx')
  have hkern : ∀ x ∈ pageSet kd, h'.mem x = h.mem x := fun x hxk =>
    hx.keep x (.inl (ht.kernel_owned hxk)) fun hxd =>
      ht.apart x (ht.kernel_owned hxk) (pages_subset_pagesOf hpd hxd)
  constructor
  · have hnext := ht.update hx.desc (by rw [← Set.union_assoc]; exact hx.owned) subset_rfl
      (fun x hxU => ⟨ht.apart x hxU, fun hxc =>
        ht.apart x hxU (pages_subset_pagesOf hpd (hx.fresh x hxc (.inl hxU)))⟩)
      (fun pd' hpd' hne x hx' hxc => hnot pd' hpd' hne x hx'
        (hx.fresh x hxc (.inr (pages_subset_pagesOf hpd' hx')))) hkeep hkern
    rw [Set.insert_eq_of_mem (by rwa [hc])] at hnext
    exact ⟨_, hnext⟩
  · refine ⟨fun w hw hpage => ?_, fun w hw hpage => ?_, fun pd' hpd' hne w hw => ?_,
      fun w hw => ?_⟩
    · rw [← hc, hx.desc.walk_table hw (by rw [hpage]; exact htable), hpte, hpage,
        Function.update_self, pageOf_entry hp hfl, entry_mod]
    · obtain ⟨e, he, hframe, hflags⟩ := hdesc.walk_access hw
      obtain ⟨e', he', hframe', hflags'⟩ := hx.desc.walk_access hw
      rw [hat] at he
      rw [hc] at he'
      rw [hpte, Function.update_of_ne hpage] at hframe' hflags'
      exact ⟨e, he, e', he', hframe'.trans hframe.symm, hflags'.trans hflags.symm⟩
    · have hwalk := (ht.desc pd' hpd').walk_congr (hkeep pd' hpd' (by rwa [hc])) hw
      rwa [ht.pd_eq pd' hpd'] at hwalk
    · refine ht.kernel.describes.walk_congr (fun x hxk => ?_) hw
      rw [identity_pages] at hxk
      exact hkern x hxk

theorem Tables.clone (ht : Tables kd h U P d) (hpd : pd ∈ P) {child : ℕ}
    (hcall : pagingCloneDirectory kd pd h = some (child, h')) :
    ∃ d', Tables kd h' (U ∪ userFrames h'.mem child) (insert child P) d' := by
  have hat := ht.pd_eq pd hpd
  have hkd := ht.kernel_owned.trans (Set.subset_union_left (t := pagesOf d P))
  have hpar : Parent h (U ∪ pagesOf d P) (d pd) :=
    ⟨ht.desc pd hpd, (pages_subset_pagesOf hpd).trans Set.subset_union_right⟩
  have hspends := cloneDirectory_spends hpar ht.owned ht.kernel hkd
  rw [hat] at hspends
  obtain ⟨⟨c, rfl, hc⟩, -⟩ := hspends.post child h' hcall
  rw [hc.userFrames_eq]
  refine ⟨_, ht.update hc.desc (hc.owned.mono ?_) Set.subset_union_left ?_
    (fun pd' hpd' _ x hx hxc => hc.pages_fresh x hxc (.inr (pages_subset_pagesOf hpd' hx)))
    (fun pd' hpd' _ x hx => hc.keep x (.inr (pages_subset_pagesOf hpd' hx)))
    fun x hx => hc.keep x (hkd hx)⟩
  · rintro x ((hx | hx) | (hx | hx))
    · exact .inl (.inl (.inl hx))
    · exact .inr hx
    · exact .inl (.inl (.inr hx))
    · exact .inl (.inr hx)
  · rintro x (hx | hx)
    · exact ⟨ht.apart x hx, fun hxc => hc.pages_fresh x hxc (.inl hx)⟩
    · obtain ⟨hxU, hxc⟩ := hc.frame_fresh x hx
      exact ⟨fun hxd => hxU (.inr hxd), hxc⟩

/-- The rest of the kernel runs. -/
theorem Tables.others (ht : Tables kd h U P d) {U' P' : Set ℕ} (hsub : P' ⊆ P)
    (ho : Owned h' (U' ∪ pagesOf d P')) (hkd : pageSet kd ⊆ U')
    (hdisj : ∀ x ∈ U', x ∉ pagesOf d P')
    (hsame : ∀ x ∈ pageSet kd ∪ pagesOf d P', h'.mem x = h.mem x) : Tables kd h' U' P' d where
  desc pd hpd := (ht.desc pd (hsub hpd)).congr fun x hx =>
    hsame x (.inr (pages_subset_pagesOf hpd hx))
  pd_eq pd hpd := ht.pd_eq pd (hsub hpd)
  owned := ho
  apart := hdisj
  disjoint pd hpd pd' hpd' := ht.disjoint pd (hsub hpd) pd' (hsub hpd')
  kernel := ht.kernel.congr fun x hx => hsame x (.inl hx)
  kernel_owned := hkd

/-- The invariant holds of the directories of every kernel. -/
theorem Directories.tables (hd : Directories kd h U P) : ∃ d, Tables kd h U P d := by
  induction hd with
  | @start h U ho hkd hk =>
    refine ⟨identity, by simp, by simp, ?_, by simp [pagesOf], by simp, hk, hkd⟩
    refine ho.mono ?_
    rintro x (hx | ⟨pd, hpd, -⟩)
    · exact hx
    · exact absurd hpd (Set.notMem_empty pd)
  | @create h h' U P pd hd hcall ih =>
    obtain ⟨d, ht⟩ := ih
    exact ⟨_, (ht.create.post pd h' hcall).1.2⟩
  | @map h h' U P pd hd hpd vaddr paddr flags hcall ih =>
    obtain ⟨d, ht⟩ := ih
    exact ((ht.map hpd vaddr.toNat_lt paddr.toNat_lt flags.toNat_lt).post _ h' hcall).1.1
  | @clone h h' U P pd child hd hpd hcall ih =>
    obtain ⟨d, ht⟩ := ih
    exact ht.clone hpd hcall
  | @others h h' U U' P P' hd hsub ho hkd hdisj hsame ih =>
    obtain ⟨d, ht⟩ := ih
    rw [ht.tablesOf_eq hsub] at ho hdisj hsame
    exact ⟨d, ht.others hsub ho hkd hdisj hsame⟩

/-! ## The result -/

/-- For every directory of a kernel, all addresses and all flags: `paging_map_page` leads the page
    of `vaddr` to the page of `paddr | flags`, which is the page of `paddr` for flags that fit
    below the frame; every other page of the directory keeps its frame and the access to it, and
    the translation of every other directory stays as it was. It returns if the heap has room. -/
theorem map_page_correct (hd : Directories kd h U P) (hpd : pd ∈ P)
    (vaddr paddr flags : UInt32) :
    (∀ h', pagingMapPage pd vaddr.toNat paddr.toNat flags.toNat h = some ((), h') →
      MapsPage h.mem h'.mem kd P pd vaddr.toNat paddr.toNat flags.toNat ∧
      (flags.toNat < 4096 → ∀ v < 2 ^ 32, v / 4096 = vaddr.toNat / 4096 →
        walk h'.mem pd v = some ⟨pageOf paddr.toNat, flags.toNat ||| pagePresent⟩)) ∧
    (8218 ≤ room h → (pagingMapPage pd vaddr.toNat paddr.toNat flags.toNat h).isSome) := by
  obtain ⟨d, ht⟩ := hd.tables
  have hmap := ht.map hpd vaddr.toNat_lt paddr.toNat_lt flags.toNat_lt
  refine ⟨fun h' hcall => ?_, hmap.returns⟩
  obtain ⟨⟨-, hmaps⟩, -⟩ := hmap.post _ h' hcall
  refine ⟨hmaps, fun hlow v hv hpage => ?_⟩
  have hflags : flags.toNat ||| pagePresent < 4096 :=
    Nat.or_lt_two_pow (n := 12) hlow (by norm_num)
  have hframe : pageOf (paddr.toNat ||| flags.toNat) = pageOf paddr.toNat := by
    have hflags0 : flags.toNat &&& 0xFFFFF000 = 0 := by
      rw [and_frame flags.toNat_lt]
      simp only [pageOf]
      omega
    rw [← and_frame (Nat.or_lt_two_pow paddr.toNat_lt flags.toNat_lt), Nat.and_or_distrib_right,
      hflags0, Nat.or_zero, and_frame paddr.toNat_lt]
  rw [hmaps.mapped v hv hpage, hframe, Nat.mod_eq_of_lt hflags]

/-- A kernel with two directories. -/
theorem exists_two_directories : ∃ kd h U pd pd', Directories kd h U {pd', pd} ∧ pd' ≠ pd ∧
    8218 ≤ room h := by
  have hroom0 : room bootHeap = 0x7F00000 := rfl
  have hinit := pagingInit_spends bootHeap_owned
  obtain ⟨kd, h1, hcall1, ⟨ho1, hk1, -⟩, hroom1⟩ := hinit.result (by omega)
  have hd1 : Directories kd h1 (lowMemory ∪ pageSet kd) ∅ :=
    .start ho1 Set.subset_union_right hk1
  obtain ⟨d1, ht1⟩ := hd1.tables
  obtain ⟨pd, h2, hcall2, ⟨-, ht2⟩, hroom2⟩ := ht1.create.result (by omega)
  obtain ⟨pd', h3, hcall3, ⟨hnew, -⟩, hroom3⟩ := ht2.create.result (by omega)
  have hd3 := (hd1.create hcall2).create hcall3
  rw [insert_empty_eq] at hd3 hnew
  exact ⟨kd, h3, _, pd, pd', hd3, hnew, by omega⟩

/-- The text screen is mapped at 1 GiB in the second of two directories. -/
theorem map_page_correct_screen : ∃ kd h U pd pd' h', Directories kd h U {pd', pd} ∧ pd' ≠ pd ∧
    pagingMapPage pd' 0x40000000 0xB8000 pageWritable h = some ((), h') ∧
    walk h'.mem pd' 0x40000010 = some ⟨0xB8000, 3⟩ ∧
    walk h'.mem pd 0x40000010 = walk h.mem pd 0x40000010 := by
  obtain ⟨kd, h, U, pd, pd', hd, hne, hroom⟩ := exists_two_directories
  obtain ⟨hspec, hreturns⟩ :=
    map_page_correct hd (Set.mem_insert pd' {pd}) 0x40000000 0xB8000 2
  obtain ⟨⟨_, h'⟩, hcall⟩ := Option.isSome_iff_exists.mp (hreturns hroom)
  obtain ⟨hmaps, hlow⟩ := hspec h' hcall
  refine ⟨kd, h, U, pd, pd', h', hd, hne, hcall, ?_, ?_⟩
  · exact hlow (by decide) 0x40000010 (by norm_num) (by decide)
  · exact hmaps.others pd (by simp) hne.symm _ (by norm_num)

/-- A flag above the low 12 bits leads the page to another frame than the one that was asked
    for. -/
theorem map_page_moves_frame : ∃ kd h U P pd h', Directories kd h U P ∧ pd ∈ P ∧
    pagingMapPage pd 0x40000000 0xB8000 0x1000 h = some ((), h') ∧
    translate h'.mem pd 0x40000000 = some 0xB9000 := by
  obtain ⟨kd, h, U, pd, pd', hd, -, hroom⟩ := exists_two_directories
  obtain ⟨d, ht⟩ := hd.tables
  have hpd := Set.mem_insert pd' {pd}
  have hmap := ht.map hpd (by norm_num : 0x40000000 < 2 ^ 32) (by norm_num : 0xB8000 < 2 ^ 32)
    (by norm_num : 0x1000 < 2 ^ 32)
  obtain ⟨_, h', hcall, ⟨-, hmaps⟩, -⟩ := hmap.result hroom
  refine ⟨kd, h, U, _, pd', h', hd, hpd, hcall, ?_⟩
  rw [translate, hmaps.mapped 0x40000000 (by norm_num) rfl]
  decide

end Mboot.Paging
