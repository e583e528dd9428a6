import Mboot.Common.Counting
import Mboot.Paging.Directory

/-!
# Cloning an address space

`paging_clone_directory` walks the tables of the parent and builds the child at
the same time, so its loops carry `Cloned`: the child describes the pages seen so
far, their frames are new, pairwise distinct and hold copies, and no memory in
use has changed. Of a frame of the parent that is only partly in use, the rest
may change while it is copied: `kmalloc` writes its headers there.
-/

namespace Mboot.Paging

open Common
open Heap (HeapState Owned room)

/-- The entry is marked `PAGE_USER`. -/
abbrev Marked (e : ℕ) : Prop := e / 4 % 2 = 1

/-- The frames that `c` has for the first `k` pages, where `d` marks them. -/
def framesBelow (d c : Directory) (k : ℕ) : Set ℕ :=
  {x | ∃ p < k, Marked (d.pte p) ∧ x ∈ pageSet (pageOf (c.pte p))}

/-- The first `k` pages of `d` have been cloned to `c`. `h₀` was the heap before,
    `U` the memory in use then. -/
structure Cloned (h₀ : HeapState) (U : Set ℕ) (d c : Directory) (k : ℕ) (h : HeapState) :
    Prop where
  desc : Describes h.mem c
  owned : Owned h (U ∪ c.pages ∪ framesBelow d c k)
  pages_fresh : ∀ x ∈ c.pages, x ∉ U
  frame_fresh : ∀ x ∈ framesBelow d c k, x ∉ U ∧ x ∉ c.pages
  flags : ∀ p < k, Marked (d.pte p) → c.pte p % 4096 = d.pte p % 4096
  same : ∀ p < k, Marked (d.pte p) → ∀ i < 4096, pageOf (d.pte p) + i ∈ U →
    h.mem (pageOf (c.pte p) + i) = h₀.mem (pageOf (d.pte p) + i)
  distinct : ∀ p < k, ∀ q < k, Marked (d.pte p) → Marked (d.pte q) →
    pageOf (c.pte p) = pageOf (c.pte q) → p = q
  other : ∀ p < 2 ^ 20, ¬(p < k ∧ Marked (d.pte p)) → c.pte p = p * 4096 + 3
  keep : ∀ x ∈ U, h.mem x = h₀.mem x

variable {h₀ h : HeapState} {U : Set ℕ} {d c : Directory} {kd k : ℕ}

theorem framesBelow_succ_of_not_marked (hk : ¬Marked (d.pte k)) :
    framesBelow d c (k + 1) = framesBelow d c k := by
  ext x
  constructor
  · rintro ⟨p, hp, hm, hx⟩
    have hne : p ≠ k := by
      rintro rfl
      exact hk hm
    exact ⟨p, by omega, hm, hx⟩
  · rintro ⟨p, hp, hm, hx⟩
    exact ⟨p, by omega, hm, hx⟩

/-- A page that is not marked stays as in the kernel directory. -/
theorem Cloned.skip (hc : Cloned h₀ U d c k h) (hk : ¬Marked (d.pte k)) :
    Cloned h₀ U d c (k + 1) h := by
  have hlt : ∀ p < k + 1, Marked (d.pte p) → p < k := by
    intro p hp hm
    have hne : p ≠ k := by
      rintro rfl
      exact hk hm
    omega
  refine ⟨hc.desc, ?_, hc.pages_fresh, ?_, fun p hp hm => hc.flags p (hlt p hp hm) hm,
    fun p hp hm => hc.same p (hlt p hp hm) hm, fun p hp q hq hm hm' =>
      hc.distinct p (hlt p hp hm) q (hlt q hq hm') hm hm', fun p hp hn => ?_, hc.keep⟩
  · rw [framesBelow_succ_of_not_marked hk]
    exact hc.owned
  · rw [framesBelow_succ_of_not_marked hk]
    exact hc.frame_fresh
  · refine hc.other p hp fun hpk => hn ⟨by omega, hpk.2⟩

/-- A marked page is copied to a fresh frame and mapped. -/
theorem Cloned.copyPage (hc : Cloned h₀ U d c k h) (hk : k < 2 ^ 20) (hm : Marked (d.pte k))
    (hodd : d.pte k % 2 = 1) :
    Spends room (8218 + 8218) (do
      let newPage ← allocAlignedPage
      setMem fun m => copy m newPage (pageOf (d.pte k)) pageSize
      pagingMapPage c.pd (k * 4096) newPage (d.pte k % 4096)) h fun _ h' =>
        ∃ c', c'.pd = c.pd ∧ Cloned h₀ U d c' (k + 1) h' := by
  refine (allocAlignedPage_spends hc.owned).bind fun f h1 hf => setMem_bind ?_
  have hal := hf.aligned
  have hbound := hf.bound
  generalize hmem : copy h1.mem f (pageOf (d.pte k)) pageSize = mem
  have hout : ∀ x, x ∉ pageSet f → mem x = h1.mem x := by
    intro x hx
    rw [mem_pageSet hal] at hx
    rw [← hmem]
    exact copy_of_outside _ _ (by simp only [pageSize]; omega)
  have hcpages : c.pages ⊆ U ∪ c.pages ∪ framesBelow d c k := fun x hx => .inl (.inr hx)
  have hdesc : Describes mem c := hc.desc.congr fun x hx =>
    (hout x (hf.fresh x (hcpages hx))).trans (hf.keep x (hcpages hx))
  have hown : Owned { h1 with mem := mem } (U ∪ c.pages ∪ framesBelow d c k ∪ pageSet f) :=
    hf.owned.write fun x hx => hout x fun hmem => hx (.inr hmem)
  refine (mapPage_spends hown hdesc (hcpages.trans Set.subset_union_left) (v := k * 4096) (p := f)
    (by omega) (by omega) (Nat.mod_lt _ (by norm_num))).imp fun _ h2 hq => ?_
  obtain ⟨c', hx, hpte⟩ := hq
  have hnew : c'.pte k = f + d.pte k % 4096 := by
    have hbit : d.pte k % 4096 ||| pagePresent = d.pte k % 4096 := or_one_of_odd (by omega)
    rw [hpte, Nat.mul_div_cancel _ (by norm_num), Function.update_self, hbit, pageOf_eq hal]
  have hold : ∀ p, p ≠ k → c'.pte p = c.pte p := fun p hp => by
    rw [hpte, Nat.mul_div_cancel _ (by norm_num), Function.update_of_ne hp]
  have hnewpage : pageOf (c'.pte k) = f := by
    rw [hnew]
    simp only [pageOf]
    omega
  -- the frames are the old ones and the new page
  have hsplit : ∀ x ∈ framesBelow d c' (k + 1), x ∈ framesBelow d c k ∨ x ∈ pageSet f := by
    rintro x ⟨p, hp, hmp, hxp⟩
    by_cases hpk : p = k
    · rw [hpk, hnewpage] at hxp
      exact .inr hxp
    · rw [hold p hpk] at hxp
      exact .inl ⟨p, by omega, hmp, hxp⟩
  have hstay : ∀ x ∈ U ∪ c.pages ∪ framesBelow d c k, x ∉ c.pages → h2.mem x = h.mem x :=
    fun x hxW hxc => (hx.keep x (.inl hxW) hxc).trans
      ((hout x (hf.fresh x hxW)).trans (hf.keep x hxW))
  have hUstay : ∀ x ∈ U, h2.mem x = h.mem x := fun x hxU =>
    hstay x (.inl (.inl hxU)) fun hxc => hc.pages_fresh x hxc hxU
  refine ⟨c', hx.pd, hx.desc, hx.owned.mono ?_, ?_, ?_, ?_, ?_, ?_, ?_, ?_⟩
  · rintro x ((hxU | hxc) | hxf)
    · exact .inl (.inl (.inl (.inl hxU)))
    · exact .inr hxc
    · obtain hxf | hxf := hsplit x hxf
      · exact .inl (.inl (.inr hxf))
      · exact .inl (.inr hxf)
  · intro x hxc hxU
    exact hc.pages_fresh x (hx.fresh x hxc (.inl (.inl (.inl hxU)))) hxU
  · intro x hxf
    obtain hxf | hxf := hsplit x hxf
    · obtain ⟨hxU, hxc⟩ := hc.frame_fresh x hxf
      exact ⟨hxU, fun hxc' => hxc (hx.fresh x hxc' (.inl (.inr hxf)))⟩
    · refine ⟨fun hxU => hf.fresh x (.inl (.inl hxU)) hxf, fun hxc' => ?_⟩
      exact hf.fresh x (hcpages (hx.fresh x hxc' (.inr hxf))) hxf
  · intro p hp hmp
    by_cases hpk : p = k
    · rw [hpk, hnew]
      omega
    · rw [hold p hpk]
      exact hc.flags p (by omega) hmp
  · intro p hp hmp i hi hsrc
    by_cases hpk : p = k
    · have hfi : f + i ∈ pageSet f := add_mem_pageSet hal hi
      have hfU : f + i ∉ c.pages := fun hxc => hf.fresh _ (hcpages hxc) hfi
      rw [hpk] at hsrc
      rw [hpk, hnewpage, hx.keep _ (.inr hfi) hfU]
      dsimp only
      rw [← hmem, copy_apply _ _ _ (by simpa only [pageSize] using hi),
        hf.keep _ (.inl (.inl hsrc)), hc.keep _ hsrc]
    · have hfr : pageOf (c.pte p) + i ∈ framesBelow d c k :=
        ⟨p, by omega, hmp, add_mem_pageSet (pageOf_mod _) hi⟩
      rw [hold p hpk, hstay _ (.inr hfr) (hc.frame_fresh _ hfr).2]
      exact hc.same p (by omega) hmp i hi hsrc
  · -- an old frame is in use, so the new page is another one
    have hne : ∀ p < k, Marked (d.pte p) → pageOf (c.pte p) ≠ f := by
      intro p hp hmp heq
      have hmem : f ∈ pageSet f := add_mem_pageSet (i := 0) hal (by norm_num)
      exact hf.fresh f (.inr ⟨p, hp, hmp, by rwa [heq]⟩) hmem
    intro p hp q hq hmp hmq heq
    by_cases hpk : p = k <;> by_cases hqk : q = k
    · rw [hpk, hqk]
    · rw [hpk, hnewpage, hold q hqk] at heq
      exact absurd heq.symm (hne q (by omega) hmq)
    · rw [hqk, hnewpage, hold p hpk] at heq
      exact absurd heq (hne p (by omega) hmp)
    · rw [hold p hpk, hold q hqk] at heq
      exact hc.distinct p (by omega) q (by omega) hmp hmq heq
  · intro p hp hn
    have hpk : p ≠ k := by
      rintro rfl
      exact hn ⟨by omega, hm⟩
    rw [hold p hpk]
    exact hc.other p hp fun hpm => hn ⟨by omega, hpm.2⟩
  · intro x hxU
    rw [hUstay x hxU, hc.keep x hxU]

/-! ## The loops -/

theorem vaddr_eq {i j : ℕ} (hj : j < 1024) :
    (i <<< 22) ||| (j <<< 12) = (1024 * i + j) * 4096 := by
  rw [Nat.shiftLeft_eq, Nat.shiftLeft_eq, or_low (k := 22) (by omega) (by omega)]
  ring

/-- The cost of one page. -/
def pageCost (d : Directory) (p : ℕ) : ℕ := if Marked (d.pte p) then 8218 + 8218 else 0

/-- The cost of all pages. -/
def cloneCost (d : Directory) : ℕ :=
  ∑ i ∈ Finset.range 1024, ∑ j ∈ Finset.range 1024, pageCost d (1024 * i + j)

/-- What the parent needs: its tables are in use. -/
structure Parent (h₀ : HeapState) (U : Set ℕ) (d : Directory) : Prop where
  desc : Describes h₀.mem d
  pages : d.pages ⊆ U

variable (hpar : Parent h₀ U d)
include hpar

/-- The parent is still there. -/
theorem Parent.desc_of_cloned (hc : Cloned h₀ U d c k h) : Describes h.mem d :=
  hpar.desc.congr fun x hx => hc.keep x (hpar.pages hx)

theorem cloneEntry_spends {i j t : ℕ} (hi : i < 1024) (hj : j < 1024) (ht : d.table i = some t)
    (hc : Cloned h₀ U d c (1024 * i + j) h) :
    Spends room (pageCost d (1024 * i + j)) (cloneEntry c.pd t i j) h fun _ h' =>
      ∃ c', c'.pd = c.pd ∧ Cloned h₀ U d c' (1024 * i + (j + 1)) h' := by
  have hdesc := hpar.desc_of_cloned hc
  have hp : 1024 * i + j < 2 ^ 20 := by omega
  have hodd := hdesc.present _ hp
  apply readWord_bind
  rw [hdesc.tables i hi t ht j hj]
  unfold pageCost
  by_cases hm : Marked (d.pte (1024 * i + j))
  · have hcond : ¬(d.pte (1024 * i + j) &&& pagePresent = 0 ∨
        d.pte (1024 * i + j) &&& pageUser = 0) := by
      have huser := (and_user _).mpr hm
      rw [and_present]
      omega
    rw [if_neg hcond, if_pos hm]
    dsimp only
    rw [vaddr_eq hj, and_low_twelve, and_frame (hdesc.pte_lt hp)]
    exact hc.copyPage hp hm hodd
  · have hcond : d.pte (1024 * i + j) &&& pagePresent = 0 ∨
        d.pte (1024 * i + j) &&& pageUser = 0 := by
      right
      by_contra hne
      exact hm ((and_user _).mp hne)
    rw [if_pos hcond, if_neg hm]
    exact Spends.pure ⟨c, rfl, hc.skip hm⟩

/-- Without a table there are no marked pages. -/
theorem Parent.not_marked {i j : ℕ} (hj : j < 1024) (ht : d.table i = none) :
    ¬Marked (d.pte (1024 * i + j)) := by
  rw [hpar.desc.large i ht j hj]
  simp only [Marked]
  omega

theorem Cloned.skipTable {i : ℕ} (ht : d.table i = none) (hc : Cloned h₀ U d c (1024 * i) h) {j : ℕ}
    (hj : j ≤ 1024) : Cloned h₀ U d c (1024 * i + j) h := by
  induction j with
  | zero => exact hc
  | succ j ih => exact (ih (by omega)).skip (hpar.not_marked (by omega) ht)

theorem cloneTable_spends {i : ℕ} (hi : i < 1024) (hc : Cloned h₀ U d c (1024 * i) h) :
    Spends room (∑ j ∈ Finset.range 1024, pageCost d (1024 * i + j)) (cloneTable d.pd c.pd i) h
      fun _ h' => ∃ c', c'.pd = c.pd ∧ Cloned h₀ U d c' (1024 * (i + 1)) h' := by
  have hdesc := hpar.desc_of_cloned hc
  apply readWord_bind
  rw [hdesc.entries i hi]
  cases ht : d.table i with
  | none =>
    have hcond : d.entry i &&& pagePresent = 0 ∨ d.entry i &&& pageSize4MB ≠ 0 := by
      right
      rw [and_size4MB]
      simp only [Directory.entry, ht, fourMiB]
      omega
    rw [if_pos hcond]
    exact (Spends.pure ⟨c, rfl, hc.skipTable hpar ht le_rfl⟩).mono (Nat.zero_le _) fun _ _ hq => hq
  | some t =>
    obtain ⟨hal, hlt⟩ := hdesc.table_aligned i t ht
    have hentry : d.entry i = t + 3 := by simp only [Directory.entry, ht]
    have hcond : ¬(t + 3 &&& pagePresent = 0 ∨ t + 3 &&& pageSize4MB ≠ 0) := by
      rw [and_present, and_size4MB]
      omega
    have hframe := and_table hal hlt
    rw [hentry, if_neg hcond, hframe]
    refine Spends.forM_range (I := fun j h' => ∃ c', c'.pd = c.pd ∧
      Cloned h₀ U d c' (1024 * i + j) h') 1024 ⟨c, rfl, hc⟩ ?_
    rintro j hj h' ⟨c', hpd, hc'⟩
    rw [← hpd]
    exact cloneEntry_spends hpar hi hj ht hc'

/-- `paging_clone_directory`: all pages have been cloned at the end. -/
theorem cloneDirectory_spends (ho : Owned h₀ U) (hk : KernelDirectory h₀.mem kd)
    (hkd : pageSet kd ⊆ U) :
    Spends room (8218 + cloneCost d) (pagingCloneDirectory kd d.pd) h₀ fun child h' =>
      ∃ c, c.pd = child ∧ Cloned h₀ U d c (2 ^ 20) h' := by
  refine (createDirectory_spends ho hk hkd).bind (d := cloneCost d) fun child h1 hcr => ?_
  obtain ⟨hf, hkern⟩ := hcr
  have hstart : Cloned h₀ U d (identity child) (1024 * 0) h1 := by
    refine ⟨hkern.describes, hf.owned.mono ?_, fun x hx hxU => ?_, ?_, ?_, ?_, ?_, fun p hp hn => rfl, hf.keep⟩
    · rintro x ((hx | hx) | ⟨p, hp, -⟩)
      · exact .inl hx
      · rw [identity_pages] at hx
        exact .inr hx
      · exact absurd hp (Nat.not_lt_zero p)
    · rw [identity_pages] at hx
      exact hf.fresh x hxU hx
    · rintro x ⟨p, hp, -⟩
      exact absurd hp (Nat.not_lt_zero p)
    · exact fun p hp => absurd hp (Nat.not_lt_zero p)
    · exact fun p hp => absurd hp (Nat.not_lt_zero p)
    · exact fun p hp => absurd hp (Nat.not_lt_zero p)
  have hloop : Spends room (cloneCost d) (forM (List.range 1024) (cloneTable d.pd child)) h1
      fun _ h' => ∃ c, c.pd = child ∧ Cloned h₀ U d c (1024 * 1024) h' := by
    refine Spends.forM_range (I := fun i h' => ∃ c, c.pd = child ∧ Cloned h₀ U d c (1024 * i) h')
      1024 ⟨_, rfl, hstart⟩ ?_
    rintro i hi h' ⟨c, rfl, hc⟩
    exact cloneTable_spends hpar hi hc
  refine hloop.andThen fun _ h' hq => Spends.pure ?_
  rwa [show 1024 * 1024 = 2 ^ 20 by norm_num] at hq

end Mboot.Paging
