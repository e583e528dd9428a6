import Mboot.Paging.Model

/-!
# What a page directory describes

A `Directory` records where a directory and its tables lie and which entry each
of the `2 ^ 20` pages has; `Describes m d` says that the memory `m` holds `d`.

* `createDirectory_spends`, `mapPage_spends`: what the two functions do to the
  directory described, and that they write nowhere else.
* `freeDirectory_spends`: `paging_free_directory` writes to the directory and its
  tables only.
* `Describes.walk`, `Describes.translate`: the translation that the processor
  makes with a directory described by `d`.
-/

namespace Mboot.Paging

open Common
open Heap (HeapState Kernel Owned Grant room alignUpUintptr alignUpUintptr_eq kmalloc_spends)

/-! ## Pages and entries -/

/-- The page that holds the address `x`. -/
def pageOf (x : ℕ) : ℕ := x / 4096 * 4096

/-- The addresses of the page at `a`. -/
def pageSet (a : ℕ) : Set ℕ := {x | pageOf x = a}

theorem mem_pageSet {a x : ℕ} (ha : a % 4096 = 0) : x ∈ pageSet a ↔ a ≤ x ∧ x < a + 4096 := by
  simp only [pageSet, pageOf, Set.mem_ofPred_eq]
  omega

theorem pageOf_mod (x : ℕ) : pageOf x % 4096 = 0 := by
  simp only [pageOf]
  omega

theorem pageOf_eq {a : ℕ} (ha : a % 4096 = 0) : pageOf a = a := by
  simp only [pageOf]
  omega

theorem add_mem_pageSet {a i : ℕ} (ha : a % 4096 = 0) (hi : i < 4096) : a + i ∈ pageSet a :=
  (mem_pageSet ha).mpr (by omega)

theorem and_frame {n : ℕ} (hn : n < 2 ^ 32) : n &&& 0xFFFFF000 = pageOf n := by
  rw [show (0xFFFFF000 : ℕ) = 2 ^ 32 - 2 ^ 12 by norm_num, and_high_mask hn (by norm_num)]
  rfl

/-- The address of a table, from the entry that leads to it. -/
theorem and_table {t : ℕ} (hal : t % 4096 = 0) (hlt : t + 4096 < 2 ^ 32) :
    t + 3 &&& 0xFFFFF000 = t := by
  rw [and_frame (by omega)]
  simp only [pageOf]
  omega

theorem and_low_twelve (n : ℕ) : n &&& 0xFFF = n % 4096 := Nat.and_two_pow_sub_one_eq_mod n 12

theorem and_large {n : ℕ} (hn : n < 2 ^ 32) : n &&& 0xFFC00000 = n / 2 ^ 22 * 2 ^ 22 := by
  rw [show (0xFFC00000 : ℕ) = 2 ^ 32 - 2 ^ 22 by norm_num, and_high_mask hn (by norm_num)]

theorem and_present (n : ℕ) : n &&& pagePresent = 0 ↔ n % 2 = 0 := by
  rw [Nat.and_one_is_mod]

theorem and_user (n : ℕ) : n &&& pageUser ≠ 0 ↔ n / 4 % 2 = 1 := and_two_pow_ne_zero (k := 2)

theorem and_size4MB (n : ℕ) : n &&& pageSize4MB ≠ 0 ↔ n / 128 % 2 = 1 :=
  and_two_pow_ne_zero (k := 7)

theorem or_present_writable {n : ℕ} (hn : n % 4096 = 0) :
    n ||| pagePresent ||| pageWritable = n + 3 := by
  rw [Nat.or_assoc, show pagePresent ||| pageWritable = 3 from rfl]
  exact or_low (k := 12) hn (by norm_num)

theorem dirIdx_eq (v : ℕ) : v >>> 22 = v / 4096 / 1024 := by
  rw [Nat.shiftRight_eq_div_pow, Nat.div_div_eq_div_mul]

theorem tableIdx_eq (v : ℕ) : (v >>> 12) &&& 0x3FF = v / 4096 % 1024 := by
  rw [Nat.shiftRight_eq_div_pow]
  exact Nat.and_two_pow_sub_one_eq_mod (v / 2 ^ 12) 10

theorem kernelEntry_eq {i : ℕ} (hi : i < 1024) : kernelEntry i = i * fourMiB + 0x83 := by
  have hmask : i * fourMiB &&& 0xFFC00000 = i * fourMiB := by
    rw [and_large (by simp only [fourMiB]; omega)]
    simp only [fourMiB]
    omega
  rw [kernelEntry, hmask, Nat.or_assoc, Nat.or_assoc,
    show pagePresent ||| (pageWritable ||| pageSize4MB) = 0x83 from rfl]
  refine or_low (k := 22) ?_ (by norm_num)
  simp only [fourMiB]
  omega

/-! ## Fresh pages -/

/-- The page at `a` is new: `h` was the heap before, `h'` is the heap now. -/
structure FreshPage (h : HeapState) (U : Set ℕ) (a : ℕ) (h' : HeapState) : Prop where
  owned : Owned h' (U ∪ pageSet a)
  aligned : a % 4096 = 0
  bound : a + 4096 + 2 ^ 23 ≤ 2 ^ 32
  fresh : ∀ x ∈ U, x ∉ pageSet a
  keep : ∀ x ∈ U, h'.mem x = h.mem x

variable {h h' : HeapState} {U : Set ℕ} {m m' : ℕ → UInt8}

theorem setMem_bind {α : Type} {c : ℕ} {f : (ℕ → UInt8) → ℕ → UInt8} {x : PUnit → Kernel α}
    {Q : α → HeapState → Prop} (hx : Spends room c (x ()) { h with mem := f h.mem } Q) :
    Spends room c (setMem f >>= x) h Q :=
  ⟨hx.returns, hx.post⟩

theorem readWord_bind {α : Type} {c a : ℕ} {x : ℕ → Kernel α} {Q : α → HeapState → Prop}
    (hx : Spends room c (x (load 4 h.mem a)) h Q) : Spends room c (readWord a >>= x) h Q :=
  ⟨hx.returns, hx.post⟩

/-- Two pages are requested, so one of them is inside. -/
theorem allocAlignedPage_spends (ho : Owned h U) :
    Spends room 8218 allocAlignedPage h (FreshPage h U) := by
  refine (kmalloc_spends ho (n := 8192) (by norm_num) (by norm_num)).andThen fun raw h' hg => ?_
  have hbound := hg.bound
  have hup : alignUpUintptr raw 4096 = (raw + 4095) / 4096 * 4096 :=
    alignUpUintptr_eq (k := 12) (by norm_num) (by norm_num; omega)
  simp only [pageSize]
  have hal : alignUpUintptr raw 4096 % 4096 = 0 := by omega
  refine Spends.pure ⟨hg.owned.mono ?_, hal, by omega, fun x hx hmem => ?_, hg.keep⟩
  · refine Set.union_subset_union_right U fun x hx => ?_
    rw [mem_pageSet hal] at hx
    rw [Set.mem_Ico]
    omega
  · rw [mem_pageSet hal] at hmem
    have := hg.fresh x hx
    omega

/-! ## Directories -/

/-- A directory at `pd`: the table of each split 4 MiB, and the entry of each
    page. -/
structure Directory where
  pd : ℕ
  table : ℕ → Option ℕ
  pte : ℕ → ℕ

/-- The `i`-th word of the directory. -/
def Directory.entry (d : Directory) (i : ℕ) : ℕ :=
  match d.table i with
  | none => i * fourMiB + 0x83
  | some t => t + 3

/-- The memory of the directory and its tables. -/
def Directory.pages (d : Directory) : Set ℕ :=
  {x | pageOf x = d.pd ∨ ∃ i, d.table i = some (pageOf x)}

/-- The identity mapping, in large pages. -/
def identity (pd : ℕ) : Directory := ⟨pd, fun _ => none, fun p => p * 4096 + 3⟩

/-- The memory holds the directory `d`. The pages of a large page count as entries
    that are present and writable. -/
structure Describes (m : ℕ → UInt8) (d : Directory) : Prop where
  pd_aligned : d.pd % 4096 = 0
  entries : ∀ i < 1024, load 4 m (d.pd + 4 * i) = d.entry i
  tables : ∀ i < 1024, ∀ t, d.table i = some t →
    ∀ j < 1024, load 4 m (t + 4 * j) = d.pte (1024 * i + j)
  large : ∀ i, d.table i = none → ∀ j < 1024, d.pte (1024 * i + j) = (1024 * i + j) * 4096 + 3
  table_lt : ∀ i t, d.table i = some t → i < 1024
  table_aligned : ∀ i t, d.table i = some t → t % 4096 = 0 ∧ t + 4096 < 2 ^ 32
  table_ne : ∀ i, d.table i ≠ some d.pd
  table_inj : ∀ i j t, d.table i = some t → d.table j = some t → i = j
  present : ∀ p < 2 ^ 20, d.pte p % 2 = 1

/-- A word of a page. -/
theorem load_page_congr {a i : ℕ} (ha : a % 4096 = 0) (hi : i < 1024)
    (h : ∀ x ∈ pageSet a, m' x = m x) : load 4 m' (a + 4 * i) = load 4 m (a + 4 * i) :=
  load_congr fun k hk => h _ ((mem_pageSet ha).mpr (by omega))

theorem Directory.pd_subset (d : Directory) : pageSet d.pd ⊆ d.pages := fun _ hx => .inl hx

theorem Directory.table_subset (d : Directory) {i t : ℕ} (ht : d.table i = some t) :
    pageSet t ⊆ d.pages := by
  intro x hx
  right
  exact ⟨i, by rw [ht, show pageOf x = t from hx]⟩

theorem identity_pages (pd : ℕ) : (identity pd).pages = pageSet pd := by
  ext x
  simp [Directory.pages, identity, pageSet]

theorem Directory.pages_update (d : Directory) {i t : ℕ} (ht : d.table i = none) :
    Directory.pages { d with table := Function.update d.table i (some t) } =
      d.pages ∪ pageSet t := by
  ext x
  simp only [Directory.pages, pageSet, Set.mem_union, Set.mem_ofPred_eq]
  constructor
  · rintro (hx | ⟨k, hk⟩)
    · exact .inl (.inl hx)
    · by_cases hki : k = i
      · rw [hki, Function.update_self] at hk
        exact .inr (Option.some.inj hk).symm
      · rw [Function.update_of_ne hki] at hk
        exact .inl (.inr ⟨k, hk⟩)
  · rintro ((hx | ⟨k, hk⟩) | hx)
    · exact .inl hx
    · have hki : k ≠ i := by
        rintro rfl
        rw [ht] at hk
        cases hk
      exact .inr ⟨k, by rw [Function.update_of_ne hki, hk]⟩
    · exact .inr ⟨i, by rw [Function.update_self, hx]⟩

theorem Describes.congr {d : Directory} (hd : Describes m d) (h : ∀ x ∈ d.pages, m' x = m x) :
    Describes m' d where
  pd_aligned := hd.pd_aligned
  entries i hi := by
    rw [load_page_congr hd.pd_aligned hi fun x hx => h x (d.pd_subset hx), hd.entries i hi]
  tables i hi t ht j hj := by
    rw [load_page_congr (hd.table_aligned i t ht).1 hj fun x hx => h x (d.table_subset ht hx),
      hd.tables i hi t ht j hj]
  large := hd.large
  table_lt := hd.table_lt
  table_aligned := hd.table_aligned
  table_ne := hd.table_ne
  table_inj := hd.table_inj
  present := hd.present

/-! ## Changes of a directory -/

/-- One entry of a table is replaced. -/
theorem Describes.setEntry {d : Directory} (hd : Describes m d) {i j t e : ℕ} (hi : i < 1024)
    (hj : j < 1024) (ht : d.table i = some t) (he : e < 2 ^ 32) (hodd : e % 2 = 1) :
    Describes (storeWord 4 m (t + 4 * j) e)
      { d with pte := Function.update d.pte (1024 * i + j) e } := by
  obtain ⟨hal, hlt⟩ := hd.table_aligned i t ht
  have hpd := hd.pd_aligned
  refine ⟨hpd, fun k hk => ?_, fun k hk u hu l hl => ?_, fun k hk l hl => ?_, hd.table_lt,
    hd.table_aligned, hd.table_ne, hd.table_inj, fun p hp => ?_⟩
  · dsimp only
    have hne : t ≠ d.pd := fun heq => hd.table_ne i (heq ▸ ht)
    rw [load_storeWord_of_disjoint _ _ (by omega)]
    exact hd.entries k hk
  · dsimp only at hu ⊢
    obtain ⟨hal', hlt'⟩ := hd.table_aligned k u hu
    by_cases hsame : 1024 * k + l = 1024 * i + j
    · obtain rfl : k = i := by omega
      obtain rfl : l = j := by omega
      obtain rfl : u = t := Option.some.inj (hu.symm.trans ht)
      rw [load_storeWord, Function.update_self]
      exact Nat.mod_eq_of_lt (by omega)
    · have hdisj : u + 4 * l + 4 ≤ t + 4 * j ∨ t + 4 * j + 4 ≤ u + 4 * l := by
        by_cases hki : k = i
        · subst hki
          obtain rfl : u = t := Option.some.inj (hu.symm.trans ht)
          omega
        · have hne : u ≠ t := fun heq => hki (hd.table_inj k i t (heq ▸ hu) ht)
          omega
      rw [load_storeWord_of_disjoint _ _ hdisj, Function.update_of_ne hsame]
      exact hd.tables k hk u hu l hl
  · dsimp only at hk ⊢
    have hne : 1024 * k + l ≠ 1024 * i + j := by
      intro heq
      obtain rfl : k = i := by omega
      rw [ht] at hk
      cases hk
    rw [Function.update_of_ne hne]
    exact hd.large k hk l hl
  · dsimp only
    by_cases hp' : p = 1024 * i + j
    · rw [hp', Function.update_self]
      exact hodd
    · rw [Function.update_of_ne hp']
      exact hd.present p hp

/-- A large page is split into the table at `t`. -/
theorem Describes.split {d : Directory} (hd : Describes m d) {i t : ℕ} (hi : i < 1024)
    (ht : d.table i = none) (hal : t % 4096 = 0) (hlt : t + 4096 < 2 ^ 32)
    (hfresh : ∀ x ∈ d.pages, x ∉ pageSet t) {f : ℕ → ℕ}
    (hf : ∀ j < 1024, f j = (1024 * i + j) * 4096 + 3) :
    Describes (storeWord 4 (storeWords 4 m t f 1024) (d.pd + 4 * i) (t + 3))
      { d with table := Function.update d.table i (some t) } := by
  have hpd := hd.pd_aligned
  have hne : t ≠ d.pd := by
    rintro rfl
    exact hfresh d.pd (d.pd_subset ((mem_pageSet hpd).mpr (by omega)))
      ((mem_pageSet hpd).mpr (by omega))
  have hnew : ∀ k u, d.table k = some u → u ≠ t := by
    rintro k u hu rfl
    exact hfresh u (d.table_subset hu ((mem_pageSet hal).mpr (by omega)))
      ((mem_pageSet hal).mpr (by omega))
  refine ⟨hpd, fun k hk => ?_, fun k hk u hu l hl => ?_, fun k hk l hl => ?_, fun k u hu => ?_,
    fun k u hu => ?_, fun k => ?_, fun k k' u hu hu' => ?_, hd.present⟩
  · dsimp only
    by_cases hki : k = i
    · subst hki
      simp only [Directory.entry, Function.update_self, load_storeWord]
      exact Nat.mod_eq_of_lt (by omega)
    · rw [load_storeWord_of_disjoint _ _ (by omega),
        load_congr (fun b hb => storeWords_of_outside m f (by omega)), hd.entries k hk]
      simp only [Directory.entry, Function.update_of_ne hki]
  · dsimp only at hu ⊢
    by_cases hki : k = i
    · subst hki
      rw [Function.update_self] at hu
      cases hu
      rw [load_storeWord_of_disjoint _ _ (by omega), load_storeWords m t f hl, hf l hl,
        hd.large k ht l hl]
      exact Nat.mod_eq_of_lt (by omega)
    · rw [Function.update_of_ne hki] at hu
      have halu := hd.table_aligned k u hu
      have hneu := hnew k u hu
      have hnepd : u ≠ d.pd := fun heq => hd.table_ne k (heq ▸ hu)
      rw [load_storeWord_of_disjoint _ _ (by omega),
        load_congr (fun b hb => storeWords_of_outside m f (by omega)), hd.tables k hk u hu l hl]
  · dsimp only at hk ⊢
    have hki : k ≠ i := by
      rintro rfl
      rw [Function.update_self] at hk
      cases hk
    rw [Function.update_of_ne hki] at hk
    exact hd.large k hk l hl
  · dsimp only at hu
    by_cases hki : k = i
    · exact hki ▸ hi
    · rw [Function.update_of_ne hki] at hu
      exact hd.table_lt k u hu
  · dsimp only at hu
    by_cases hki : k = i
    · rw [hki, Function.update_self] at hu
      cases hu
      exact ⟨hal, hlt⟩
    · rw [Function.update_of_ne hki] at hu
      exact hd.table_aligned k u hu
  · dsimp only
    by_cases hki : k = i
    · rw [hki, Function.update_self]
      exact fun heq => hne (Option.some.inj heq)
    · rw [Function.update_of_ne hki]
      exact hd.table_ne k
  · dsimp only at hu hu'
    by_cases hki : k = i <;> by_cases hki' : k' = i
    · rw [hki, hki']
    · rw [hki, Function.update_self] at hu
      rw [Function.update_of_ne hki'] at hu'
      exact absurd (Option.some.inj hu).symm (hnew k' u hu')
    · rw [Function.update_of_ne hki] at hu
      rw [hki', Function.update_self] at hu'
      exact absurd (Option.some.inj hu').symm (hnew k u hu)
    · rw [Function.update_of_ne hki] at hu
      rw [Function.update_of_ne hki'] at hu'
      exact hd.table_inj k k' u hu hu'

/-! ## The functions -/

/-- The directory that `paging_init` makes: 1024 present 4 MiB entries that map
    every address to itself. -/
def KernelDirectory (m : ℕ → UInt8) (kd : ℕ) : Prop :=
  kd % 4096 = 0 ∧ ∀ i < 1024, load 4 m (kd + 4 * i) = kernelEntry i

theorem KernelDirectory.describes {kd : ℕ} (hk : KernelDirectory m kd) :
    Describes m (identity kd) where
  pd_aligned := hk.1
  entries i hi := (hk.2 i hi).trans (kernelEntry_eq hi)
  tables i _ t ht := by cases ht
  large i _ j _ := rfl
  table_lt i t ht := by cases ht
  table_aligned i t ht := by cases ht
  table_ne i ht := by cases ht
  table_inj i j t ht := by cases ht
  present p _ := by
    simp only [identity]
    omega

theorem KernelDirectory.congr {kd : ℕ} (hk : KernelDirectory m kd)
    (h : ∀ x ∈ pageSet kd, m' x = m x) : KernelDirectory m' kd :=
  ⟨hk.1, fun i hi => (load_page_congr hk.1 hi h).trans (hk.2 i hi)⟩

theorem pagingInit_spends (ho : Owned h U) :
    Spends room 8218 pagingInit h fun kd h' =>
      Owned h' (U ∪ pageSet kd) ∧ KernelDirectory h'.mem kd ∧ ∀ x ∈ U, h'.mem x = h.mem x := by
  refine (allocAlignedPage_spends ho).andThen fun kd h' hp => setMem_bind (Spends.pure ?_)
  have hal := hp.aligned
  have hout : ∀ x ∉ pageSet kd, storeWords 4 h'.mem kd kernelEntry 1024 x = h'.mem x := fun x hx => by
    rw [mem_pageSet hal] at hx
    exact storeWords_of_outside _ _ (by omega)
  refine ⟨hp.owned.write fun x hx => hout x fun hmem => hx (.inr hmem), ⟨hal, fun i hi => ?_⟩,
    fun x hx => (hout x (hp.fresh x hx)).trans (hp.keep x hx)⟩
  · rw [load_storeWords _ _ _ hi, kernelEntry_eq hi]
    simp only [fourMiB]
    exact Nat.mod_eq_of_lt (by omega)

/-- `paging_create_directory` copies the kernel directory to a fresh page. -/
theorem createDirectory_spends {kd : ℕ} (ho : Owned h U) (hk : KernelDirectory h.mem kd)
    (hkd : pageSet kd ⊆ U) :
    Spends room 8218 (pagingCreateDirectory kd) h fun pd h' =>
      FreshPage h U pd h' ∧ KernelDirectory h'.mem pd := by
  refine (allocAlignedPage_spends ho).andThen fun pd h' hp => setMem_bind (Spends.pure ?_)
  have hal := hp.aligned
  have hout : ∀ x ∉ pageSet pd, copy h'.mem pd kd pageSize x = h'.mem x := fun x hx => by
    rw [mem_pageSet hal] at hx
    exact copy_of_outside _ _ (by simp only [pageSize]; omega)
  refine ⟨⟨hp.owned.write fun x hx => hout x fun hmem => hx (.inr hmem), hal, hp.bound, hp.fresh,
    fun x hx => (hout x (hp.fresh x hx)).trans (hp.keep x hx)⟩, hal, fun i hi => ?_⟩
  have hcopy : load 4 (copy h'.mem pd kd pageSize) (pd + 4 * i) = load 4 h.mem (kd + 4 * i) := by
    rw [load, load]
    refine congrArg leValue (List.map_congr_left fun b hb => ?_)
    have hb : b < 4 := List.mem_range.mp hb
    rw [Nat.add_assoc, copy_apply _ _ _ (by simp only [pageSize]; omega), ← Nat.add_assoc]
    exact hp.keep _ (hkd ((mem_pageSet hk.1).mpr (by omega)))
  exact hcopy.trans (hk.2 i hi)

/-- From `d` to `d'` pages were added, and nothing else in `U` was written. -/
structure Extends (h : HeapState) (U : Set ℕ) (d d' : Directory) (h' : HeapState) : Prop where
  desc : Describes h'.mem d'
  pd : d'.pd = d.pd
  owned : Owned h' (U ∪ d'.pages)
  pages : d.pages ⊆ d'.pages
  fresh : ∀ x ∈ d'.pages, x ∈ U → x ∈ d.pages
  keep : ∀ x ∈ U, x ∉ d.pages → h'.mem x = h.mem x

/-- The entry of the directory leads to a table afterwards; no translation has
    changed. -/
theorem splitEntry_spends {d : Directory} {i : ℕ} (ho : Owned h U) (hd : Describes h.mem d)
    (hU : d.pages ⊆ U) (hi : i < 1024) :
    Spends room 8218 (splitEntry d.pd i) h fun e h' =>
      ∃ d' t, Extends h U d d' h' ∧ d'.pte = d.pte ∧ d'.table i = some t ∧ e = t + 3 := by
  apply readWord_bind
  rw [hd.entries i hi]
  cases ht : d.table i with
  | some t =>
    have hal := (hd.table_aligned i t ht).1
    have hentry : d.entry i = t + 3 := by simp only [Directory.entry, ht]
    have hsmall : ¬(t + 3 &&& pageSize4MB ≠ 0) := by
      rw [and_size4MB]
      omega
    rw [hentry, if_neg hsmall]
    refine (Spends.pure ?_).mono (Nat.zero_le _) fun _ _ hq => hq
    exact ⟨d, t, ⟨hd, rfl, by rwa [Set.union_eq_self_of_subset_right hU], subset_rfl,
      fun x hx _ => hx, fun x _ _ => rfl⟩, rfl, ht, rfl⟩
  | none =>
    have hentry : d.entry i = i * fourMiB + 0x83 := by simp only [Directory.entry, ht]
    have hlarge : i * fourMiB + 0x83 &&& pageSize4MB ≠ 0 := by
      rw [and_size4MB]
      simp only [fourMiB]
      omega
    have hbase : i * fourMiB + 0x83 &&& 0xFFC00000 = i * fourMiB := by
      simp only [fourMiB]
      rw [and_large (by omega)]
      omega
    rw [hentry, if_pos hlarge, hbase]
    refine (allocAlignedPage_spends ho).andThen fun t h' hp =>
      setMem_bind (setMem_bind (readWord_bind (Spends.pure ?_)))
    have hal := hp.aligned
    have hbound := hp.bound
    have hpd := hd.pd_aligned
    have hpde : (t &&& 0xFFFFF000) ||| pagePresent ||| pageWritable = t + 3 := by
      rw [and_frame (by omega), pageOf_eq hal, or_present_writable hal]
    have hf : ∀ j < 1024, (i * fourMiB + (j <<< 12)) ||| pagePresent ||| pageWritable =
        (1024 * i + j) * 4096 + 3 := by
      intro j hj
      simp only [fourMiB]
      rw [Nat.shiftLeft_eq, or_present_writable (by omega)]
      ring
    dsimp only
    rw [hpde]
    have hdesc := (hd.congr fun x hx => hp.keep x (hU hx)).split hi ht hal (by omega)
      (fun x hx => hp.fresh x (hU hx)) hf
    generalize hm : storeWord 4 (storeWords 4 h'.mem t _ 1024) (d.pd + 4 * i) (t + 3) = mem at hdesc ⊢
    -- only the new page and the directory have been written
    have hout : ∀ x, x ∉ pageSet t → x ∉ pageSet d.pd → mem x = h'.mem x := by
      intro x hx hx'
      rw [mem_pageSet hal] at hx
      rw [mem_pageSet hpd] at hx'
      rw [← hm, storeWord_of_outside _ _ (by omega), storeWords_of_outside _ _ (by omega)]
    refine ⟨_, t, ⟨hdesc, rfl, ?_, ?_, fun x hx hxU => ?_, fun x hxU hx => ?_⟩, rfl,
      Function.update_self .., ?_⟩
    · rw [d.pages_update ht, ← Set.union_assoc, Set.union_eq_self_of_subset_right hU]
      refine hp.owned.write fun x hx => hout x (fun hxt => hx (.inr hxt)) fun hxd => ?_
      exact hx (.inl (hU (d.pd_subset hxd)))
    · rw [d.pages_update ht]
      exact Set.subset_union_left
    · rw [d.pages_update ht] at hx
      exact hx.resolve_right (hp.fresh x hxU)
    · exact (hout x (hp.fresh x hxU) fun hxd => hx (d.pd_subset hxd)).trans (hp.keep x hxU)
    · rw [← hm, load_storeWord]
      exact Nat.mod_eq_of_lt (by omega)

/-- The word of line 104 fits its entry. -/
theorem mapEntry_lt (p : ℕ) {flags : ℕ} (hfl : flags < 2 ^ 32) :
    (p &&& 0xFFFFF000) ||| flags ||| pagePresent < 2 ^ 32 :=
  Nat.or_lt_two_pow (Nat.or_lt_two_pow (Nat.and_lt_two_pow p (by norm_num)) hfl) (by norm_num)

/-- `paging_map_page` replaces the entry of one page, by the word of line 104. -/
theorem mapPage_spends_entry {d : Directory} {v p flags : ℕ} (ho : Owned h U)
    (hd : Describes h.mem d) (hU : d.pages ⊆ U) (hv : v < 2 ^ 32) (hfl : flags < 2 ^ 32) :
    Spends room 8218 (pagingMapPage d.pd v p flags) h fun _ h' =>
      ∃ d' t, Extends h U d d' h' ∧ d'.table (v / 4096 / 1024) = some t ∧
        d'.pte = Function.update d.pte (v / 4096)
          ((p &&& 0xFFFFF000) ||| flags ||| pagePresent) := by
  have hdir : v / 4096 / 1024 < 1024 := by omega
  have htab : v / 4096 % 1024 < 1024 := Nat.mod_lt _ (by norm_num)
  have hidx : 1024 * (v / 4096 / 1024) + v / 4096 % 1024 = v / 4096 := Nat.div_add_mod _ _
  unfold pagingMapPage
  simp only [dirIdx_eq, tableIdx_eq]
  refine (splitEntry_spends ho hd hU hdir).andThen fun e h' hs => Spends.modify rfl ?_
  obtain ⟨d', t, hx, hpte, ht, rfl⟩ := hs
  obtain ⟨hal, hlt⟩ := hx.desc.table_aligned _ t ht
  have hodd : ((p &&& 0xFFFFF000) ||| flags ||| pagePresent) % 2 = 1 := by
    rw [Nat.or_mod_two_eq_one]
    exact .inr rfl
  have hdesc := hx.desc.setEntry hdir htab ht (mapEntry_lt p hfl) hodd
  rw [and_table hal hlt]
  refine ⟨_, t, ⟨hdesc, hx.pd, ?_, hx.pages, hx.fresh, fun x hxU hxd => ?_⟩, ht, ?_⟩
  · refine hx.owned.write fun x hx' => storeWord_of_outside _ _ ?_
    have hxt : x ∉ pageSet t := fun hmem => hx' (.inr (d'.table_subset ht hmem))
    rw [mem_pageSet hal] at hxt
    omega
  · refine (storeWord_of_outside _ _ ?_).trans (hx.keep x hxU hxd)
    have hxt : x ∉ pageSet t := fun hmem => hxd (hx.fresh x (d'.table_subset ht hmem) hxU)
    rw [mem_pageSet hal] at hxt
    omega
  · simp only [hidx, hpte]

/-- The entry for flags that fit below the frame. -/
theorem mapPage_spends {d : Directory} {v p flags : ℕ} (ho : Owned h U) (hd : Describes h.mem d)
    (hU : d.pages ⊆ U) (hv : v < 2 ^ 32) (hp : p < 2 ^ 32) (hfl : flags < 4096) :
    Spends room 8218 (pagingMapPage d.pd v p flags) h fun _ h' =>
      ∃ d', Extends h U d d' h' ∧
        d'.pte = Function.update d.pte (v / 4096) (pageOf p + (flags ||| pagePresent)) := by
  have hflags : flags ||| pagePresent < 4096 := Nat.or_lt_two_pow (n := 12) hfl (by norm_num)
  have hentry : (p &&& 0xFFFFF000) ||| flags ||| pagePresent =
      pageOf p + (flags ||| pagePresent) := by
    rw [and_frame hp, Nat.or_assoc]
    exact or_low (k := 12) (pageOf_mod p) hflags
  refine (mapPage_spends_entry ho hd hU hv (by omega)).imp fun _ h' hq => ?_
  obtain ⟨d', t, hx, -, hpte⟩ := hq
  rw [hentry] at hpte
  exact ⟨d', hx, hpte⟩

theorem freeEntry_spends {i j t : ℕ} {d : Directory} (ho : Owned h U) (hd : Describes m d)
    (hU : d.pages ⊆ U) (ht : d.table i = some t) (hj : j < 1024) :
    Spends room 0 (freeEntry t j) h fun _ h' =>
      Owned h' U ∧ ∀ x ∉ pageSet t, h'.mem x = h.mem x := by
  have hal := (hd.table_aligned i t ht).1
  apply readWord_bind
  split_ifs
  · exact Spends.pure ⟨ho, fun _ _ => rfl⟩
  · have hout : ∀ x ∉ pageSet t, storeWord 4 h.mem (t + 4 * j) 0 x = h.mem x := fun x hx => by
      rw [mem_pageSet hal] at hx
      exact storeWord_of_outside _ _ (by omega)
    exact Spends.modify rfl ⟨ho.write fun x hx => hout x fun hxt => hx (hU (d.table_subset ht hxt)),
      hout⟩

/-- The directory `d` while it is cleared: `i` entries have been visited. -/
structure Clearing (h₀ : HeapState) (U : Set ℕ) (d : Directory) (i : ℕ) (h : HeapState) : Prop where
  owned : Owned h U
  entries : ∀ k < 1024, i ≤ k → load 4 h.mem (d.pd + 4 * k) = d.entry k
  keep : ∀ x ∉ d.pages, h.mem x = h₀.mem x

theorem freeTable_spends {h₀ : HeapState} {d : Directory} {kd i : ℕ} (hd : Describes m d)
    (hU : d.pages ⊆ U) (hi : i < 1024) (hc : Clearing h₀ U d i h) :
    Spends room 0 (freeTable kd d.pd i) h fun _ h' => Clearing h₀ U d (i + 1) h' := by
  apply readWord_bind
  rw [hc.entries i hi le_rfl]
  have hskip : Clearing h₀ U d (i + 1) h := ⟨hc.owned, fun k hk hik => hc.entries k hk (by omega), hc.keep⟩
  split_ifs with hcond
  · exact Spends.pure hskip
  obtain ⟨-, hsmall⟩ := not_or.mp hcond
  cases ht : d.table i with
  | none =>
    simp only [Directory.entry, ht, and_size4MB, fourMiB] at hsmall
    omega
  | some t =>
    obtain ⟨hal, hlt⟩ := hd.table_aligned i t ht
    have hpd := hd.pd_aligned
    have hne : t ≠ d.pd := fun heq => hd.table_ne i (heq ▸ ht)
    have hentry : d.entry i = t + 3 := by simp only [Directory.entry, ht]
    rw [hentry, and_table hal hlt]
    have hloop : Spends room 0 (forM (List.range 1024) (freeEntry t)) h fun _ h' =>
        Owned h' U ∧ ∀ x ∉ pageSet t, h'.mem x = h.mem x := by
      have hstep : ∀ j < 1024, ∀ h1, (Owned h1 U ∧ ∀ x ∉ pageSet t, h1.mem x = h.mem x) →
          Spends room 0 (freeEntry t j) h1 fun _ h2 =>
            Owned h2 U ∧ ∀ x ∉ pageSet t, h2.mem x = h.mem x := fun j hj h1 hq =>
        (freeEntry_spends hq.1 hd hU ht hj).imp fun _ h2 hq2 =>
          ⟨hq2.1, fun x hx => (hq2.2 x hx).trans (hq.2 x hx)⟩
      simpa using Spends.forM_range (c := fun _ => 0)
        (I := fun _ h' => Owned h' U ∧ ∀ x ∉ pageSet t, h'.mem x = h.mem x)
        1024 ⟨hc.owned, fun _ _ => rfl⟩ hstep
    refine hloop.andThen fun _ h1 hq => readWord_bind (Spends.modify rfl ?_)
    obtain ⟨ho1, hkeep1⟩ := hq
    generalize load 4 h1.mem (kd + 4 * i) = shared
    have hout : ∀ x ∉ pageSet d.pd, storeWord 4 h1.mem (d.pd + 4 * i) shared x = h1.mem x := fun x hx => by
      rw [mem_pageSet hpd] at hx
      exact storeWord_of_outside _ _ (by omega)
    refine ⟨ho1.write fun x hx => hout x fun hxd => hx (hU (d.pd_subset hxd)), fun k hk hik => ?_,
      fun x hx => ?_⟩
    · -- a later entry is another word of the directory, and no word of the table
      dsimp only
      rw [load_storeWord_of_disjoint _ _ (by omega), ← hc.entries k hk (by omega)]
      exact load_congr fun b hb => hkeep1 _ (by rw [mem_pageSet hal]; omega)
    · exact (hout x fun hxd => hx (d.pd_subset hxd)).trans
        ((hkeep1 x fun hxt => hx (d.table_subset ht hxt)).trans (hc.keep x hx))

/-- `paging_free_directory` writes to the pages of the directory only. -/
theorem freeDirectory_spends {d : Directory} (kd : ℕ) (ho : Owned h U) (hd : Describes h.mem d)
    (hU : d.pages ⊆ U) :
    Spends room 0 (pagingFreeDirectory kd d.pd) h fun _ h' =>
      Owned h' U ∧ ∀ x ∉ d.pages, h'.mem x = h.mem x := by
  unfold pagingFreeDirectory
  split_ifs
  · exact Spends.pure ⟨ho, fun _ _ => rfl⟩
  · have hstep : ∀ i < 1024, ∀ h1, Clearing h U d i h1 →
        Spends room 0 (freeTable kd d.pd i) h1 fun _ h2 => Clearing h U d (i + 1) h2 :=
      fun i hi h1 hc => freeTable_spends hd hU hi hc
    have hrun := Spends.forM_range (c := fun _ => 0) (I := Clearing h U d) 1024
      ⟨ho, fun k hk _ => hd.entries k hk, fun _ _ => rfl⟩ hstep
    rw [Finset.sum_const_zero] at hrun
    exact hrun.imp fun _ h' hc => ⟨hc.owned, hc.keep⟩

/-! ## Translation -/

theorem Describes.pte_lt {d : Directory} (hd : Describes m d) {p : ℕ} (hp : p < 2 ^ 20) :
    d.pte p < 2 ^ 32 := by
  have hidx : 1024 * (p / 1024) + p % 1024 = p := Nat.div_add_mod p 1024
  have hlt : p % 1024 < 1024 := Nat.mod_lt _ (by norm_num)
  cases ht : d.table (p / 1024) with
  | none =>
    have hlarge := hd.large _ ht _ hlt
    rw [hidx] at hlarge
    omega
  | some t =>
    have hload := hd.tables _ (by omega) t ht _ hlt
    rw [hidx] at hload
    have hbound := load_lt 4 m (t + 4 * (p % 1024))
    omega

/-- The walk through a large page ends at the page itself. -/
theorem Describes.walk_large {d : Directory} (hd : Describes m d) {v : ℕ} (hv : v < 2 ^ 32)
    (ht : d.table (v / 4096 / 1024) = none) :
    walk m d.pd v = some ⟨pageOf v, 0x83⟩ ∧ d.pte (v / 4096) = pageOf v + 3 := by
  have hidx : 1024 * (v / 4096 / 1024) + v / 4096 % 1024 = v / 4096 := Nat.div_add_mod _ _
  have hlarge := hd.large _ ht (v / 4096 % 1024) (Nat.mod_lt _ (by norm_num))
  have hentry : d.entry (v / 4096 / 1024) = v / 4096 / 1024 * fourMiB + 0x83 := by
    simp only [Directory.entry, ht]
  rw [hidx] at hlarge
  refine ⟨?_, hlarge⟩
  have hmid : v &&& 0x3FF000 = v / 4096 % 1024 * 4096 := by
    have hlow : v &&& 0x3FFFFF = v % 2 ^ 22 := Nat.and_two_pow_sub_one_eq_mod v 22
    rw [show (0x3FF000 : ℕ) = 0x3FFFFF &&& 0xFFFFF000 by decide, ← Nat.and_assoc, hlow,
      and_frame (by omega)]
    simp only [pageOf]
    omega
  have hlo : ¬(v / 4096 / 1024 * fourMiB + 0x83 &&& pagePresent = 0) := by
    rw [and_present]
    simp only [fourMiB]
    omega
  have hbig : v / 4096 / 1024 * fourMiB + 0x83 &&& pageSize4MB ≠ 0 := by
    rw [and_size4MB]
    simp only [fourMiB]
    omega
  simp only [walk, dirIdx_eq, hd.entries _ (show v / 4096 / 1024 < 1024 by omega), hentry, hlo,
    hbig, if_false, ne_eq, not_false_eq_true, if_true, hmid, and_low_twelve]
  rw [and_large (by simp only [fourMiB]; omega)]
  simp only [pageOf, fourMiB, Option.some.injEq, Mapping.mk.injEq]
  omega

/-- The walk through a table ends at the frame of the entry. -/
theorem Describes.walk_table {d : Directory} (hd : Describes m d) {v t : ℕ} (hv : v < 2 ^ 32)
    (ht : d.table (v / 4096 / 1024) = some t) :
    walk m d.pd v = some ⟨pageOf (d.pte (v / 4096)), d.pte (v / 4096) % 4096⟩ := by
  have hidx : 1024 * (v / 4096 / 1024) + v / 4096 % 1024 = v / 4096 := Nat.div_add_mod _ _
  have hdir : v / 4096 / 1024 < 1024 := by omega
  obtain ⟨hal, hlt⟩ := hd.table_aligned _ t ht
  have hload := hd.tables _ hdir t ht (v / 4096 % 1024) (Nat.mod_lt _ (by norm_num))
  rw [hidx] at hload
  have hentry : d.entry (v / 4096 / 1024) = t + 3 := by simp only [Directory.entry, ht]
  have hlo : ¬(t + 3 &&& pagePresent = 0) := by
    rw [and_present]
    omega
  have hsmall : ¬(t + 3 &&& pageSize4MB ≠ 0) := by
    rw [and_size4MB]
    omega
  have hframe := and_table hal hlt
  have hpres : ¬(d.pte (v / 4096) &&& pagePresent = 0) := by
    rw [and_present]
    have := hd.present (v / 4096) (by omega)
    omega
  simp only [walk, dirIdx_eq, tableIdx_eq, hd.entries _ hdir, hentry, hlo, hsmall, if_false, hframe,
    hload, hpres, and_low_twelve, and_frame (hd.pte_lt (show v / 4096 < 2 ^ 20 by omega))]

/-- The translation of an address, from the entry of its page. -/
theorem Describes.translate {d : Directory} (hd : Describes m d) {v : ℕ} (hv : v < 2 ^ 32) :
    translate m d.pd v = some (pageOf (d.pte (v / 4096)) + v % 4096) := by
  cases ht : d.table (v / 4096 / 1024) with
  | none =>
    obtain ⟨hwalk, hpte⟩ := hd.walk_large hv ht
    rw [Paging.translate, hwalk, hpte]
    simp only [Option.map_some, pageOf, pageSize, Option.some.injEq]
    omega
  | some t =>
    rw [Paging.translate, hd.walk_table hv ht]
    rfl

/-- The processor looks at the pages of the directory only. -/
theorem Describes.walk_congr {d : Directory} (hd : Describes m d) (h : ∀ x ∈ d.pages, m' x = m x)
    {v : ℕ} (hv : v < 2 ^ 32) : walk m' d.pd v = walk m d.pd v := by
  have hd' := hd.congr h
  cases ht : d.table (v / 4096 / 1024) with
  | none => rw [(hd'.walk_large hv ht).1, (hd.walk_large hv ht).1]
  | some t => rw [hd'.walk_table hv ht, hd.walk_table hv ht]

theorem Describes.isUser_iff {d : Directory} (hd : Describes m d) {v : ℕ} (hv : v < 2 ^ 32) :
    IsUser m d.pd v ↔ d.pte (v / 4096) / 4 % 2 = 1 := by
  cases ht : d.table (v / 4096 / 1024) with
  | none =>
    obtain ⟨hwalk, hpte⟩ := hd.walk_large hv ht
    simp only [IsUser, hwalk, hpte, Option.mem_some_iff, exists_eq_left', and_user]
    simp only [pageOf]
    omega
  | some t =>
    simp only [IsUser, hd.walk_table hv ht, Option.mem_some_iff, exists_eq_left', and_user]
    omega

/-- A page that is marked lies in a split 4 MiB. -/
theorem Describes.table_of_marked {d : Directory} (hd : Describes m d) {p : ℕ}
    (hm : d.pte p / 4 % 2 = 1) : ∃ t, d.table (p / 1024) = some t := by
  cases ht : d.table (p / 1024) with
  | none =>
    have hlarge := hd.large _ ht (p % 1024) (Nat.mod_lt _ (by norm_num))
    rw [Nat.div_add_mod] at hlarge
    omega
  | some t => exact ⟨t, rfl⟩

theorem Describes.walk_user {d : Directory} (hd : Describes m d) {v : ℕ} (hv : v < 2 ^ 32)
    (hu : d.pte (v / 4096) / 4 % 2 = 1) :
    walk m d.pd v = some ⟨pageOf (d.pte (v / 4096)), d.pte (v / 4096) % 4096⟩ := by
  obtain ⟨t, ht⟩ := hd.table_of_marked hu
  exact hd.walk_table hv ht

/-- The two words that a walk to a marked page reads. -/
theorem Describes.words_of_marked {d : Directory} (hd : Describes m d) {p : ℕ} (hp : p < 2 ^ 20)
    (hm : d.pte p / 4 % 2 = 1) :
    load 4 m ((load 4 m (d.pd + 4 * (p / 1024)) &&& 0xFFFFF000) + 4 * (p % 1024)) = d.pte p := by
  obtain ⟨t, ht⟩ := hd.table_of_marked hm
  obtain ⟨hal, hlt⟩ := hd.table_aligned _ t ht
  have hdir : p / 1024 < 1024 := by omega
  have hentry : d.entry (p / 1024) = t + 3 := by simp only [Directory.entry, ht]
  have hframe := and_table hal hlt
  rw [hd.entries _ hdir, hentry, hframe, hd.tables _ hdir t ht _ (Nat.mod_lt _ (by norm_num)),
    Nat.div_add_mod]

end Mboot.Paging
