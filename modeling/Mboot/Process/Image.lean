import Mboot.Process.Model

/-!
# The image of a process

* `imageSpan_spec`: the span of the segments.
* `allocImage_spends`: its pages are fresh, cleared and mapped one after the
  other.
* `copySegments_overlaid`: the copy loop lays the segments over the pages, one
  after the other (`overlay`), and touches no other byte.
* `loadImage_spends`: the image, mapped in the new directory.
-/

namespace Mboot.Process

open Common
open Heap (HeapState Owned Grant room alignUpUintptr alignUpUintptr_eq kmalloc_spends)
open Paging

/-! ## The span -/

/-- The end of a segment, rounded up to a page. -/
def segmentEnd (s : Segment) : ℕ := (s.vaddr + s.memsz + 4095) / 4096 * 4096

/-- What callers pass as a segment: the file part fits, and no address computed
    from it wraps. -/
structure Segment.Ok (s : Segment) : Prop where
  filesz_le : s.filesz ≤ s.memsz
  fits : s.vaddr + s.memsz + 4095 < 2 ^ 32
  data_fits : s.data + s.filesz ≤ 2 ^ 32

theorem widen_eq (span : ℕ × ℕ) {s : Segment} (hs : s.Ok) :
    widen span s = (min (pageOf s.vaddr) span.1, max (segmentEnd s) span.2) := by
  have hfits := hs.fits
  have hdown : pageAlignDown s.vaddr = pageOf s.vaddr := and_frame (by omega)
  have hup : pageAlignUp ((s.vaddr + s.memsz) % 2 ^ 32) = segmentEnd s := by
    rw [Nat.mod_eq_of_lt (by omega)]
    exact alignUpUintptr_eq (k := 12) (by norm_num) (by norm_num; omega)
  simp only [widen, hdown, hup, Prod.mk.injEq]
  constructor
  · split_ifs <;> omega
  · split_ifs <;> omega

/-- The smallest page-aligned span with all segments. -/
structure SpanOf (segments : List Segment) (span : ℕ × ℕ) : Prop where
  covers : ∀ s ∈ segments, span.1 ≤ pageOf s.vaddr ∧ segmentEnd s ≤ span.2
  base : ∃ s ∈ segments, span.1 = pageOf s.vaddr
  stop : span.2 = 0 ∨ ∃ s ∈ segments, span.2 = segmentEnd s

theorem foldl_widen {segments : List Segment} (hok : ∀ s ∈ segments, s.Ok) (acc : ℕ × ℕ) :
    (segments.foldl widen acc).1 ≤ acc.1 ∧ acc.2 ≤ (segments.foldl widen acc).2 ∧
    (∀ s ∈ segments, (segments.foldl widen acc).1 ≤ pageOf s.vaddr ∧
      segmentEnd s ≤ (segments.foldl widen acc).2) ∧
    ((segments.foldl widen acc).1 = acc.1 ∨
      ∃ s ∈ segments, (segments.foldl widen acc).1 = pageOf s.vaddr) ∧
    ((segments.foldl widen acc).2 = acc.2 ∨
      ∃ s ∈ segments, (segments.foldl widen acc).2 = segmentEnd s) := by
  induction segments generalizing acc with
  | nil => simp
  | cons s segments ih =>
    obtain ⟨h1, h2, hall, hbase, hstop⟩ :=
      ih (fun t ht => hok t (List.mem_cons_of_mem _ ht)) (widen acc s)
    rw [widen_eq acc (hok s List.mem_cons_self)] at h1 h2 hall hbase hstop
    simp only [List.foldl_cons, widen_eq acc (hok s List.mem_cons_self)]
    refine ⟨h1.trans (min_le_right _ _), (le_max_right _ _).trans h2, fun t ht => ?_, ?_, ?_⟩
    · obtain rfl | ht := List.mem_cons.mp ht
      · exact ⟨h1.trans (min_le_left _ _), (le_max_left _ _).trans h2⟩
      · exact hall t ht
    · obtain hbase | ⟨t, ht, hbase⟩ := hbase
      · obtain hmin | hmin := min_choice (pageOf s.vaddr) acc.1
        · exact .inr ⟨s, List.mem_cons_self, hbase.trans hmin⟩
        · exact .inl (hbase.trans hmin)
      · exact .inr ⟨t, List.mem_cons_of_mem _ ht, hbase⟩
    · obtain hstop | ⟨t, ht, hstop⟩ := hstop
      · obtain hmax | hmax := max_choice (segmentEnd s) acc.2
        · exact .inr ⟨s, List.mem_cons_self, hstop.trans hmax⟩
        · exact .inl (hstop.trans hmax)
      · exact .inr ⟨t, List.mem_cons_of_mem _ ht, hstop⟩

theorem imageSpan_spec {segments : List Segment} (hne : segments ≠ [])
    (hok : ∀ s ∈ segments, s.Ok) : SpanOf segments (imageSpan segments) := by
  obtain ⟨-, -, hall, hbase, hstop⟩ := foldl_widen hok (0xFFFFFFFF, 0)
  refine ⟨hall, ?_, hstop⟩
  obtain hbase | hbase := hbase
  · obtain ⟨s, hs⟩ := List.exists_mem_of_ne_nil segments hne
    have hle := (hall s hs).1
    have hfits := (hok s hs).fits
    rw [hbase] at hle
    simp only [pageOf] at hle
    omega
  · exact hbase

theorem pageAlignUp_aligned (x : ℕ) : pageAlignUp x % 4096 = 0 ∧ pageAlignUp x < 2 ^ 32 := by
  have hlt : (x + 4095) % 2 ^ 32 < 2 ^ 32 := Nat.mod_lt _ (by norm_num)
  have hup : pageAlignUp x = pageOf ((x + 4095) % 2 ^ 32) := and_frame hlt
  rw [hup]
  simp only [pageOf]
  omega

/-- The span for any addresses and sizes, also for segments whose end wraps. -/
theorem foldl_widen_aligned {segments : List Segment} (hv : ∀ s ∈ segments, s.vaddr < 2 ^ 32)
    (acc : ℕ × ℕ) (hbase : acc.1 % 4096 = 0 ∨ segments ≠ [] ∧ acc.1 = 0xFFFFFFFF)
    (hstop : acc.2 % 4096 = 0 ∧ acc.2 < 2 ^ 32) :
    (segments.foldl widen acc).1 % 4096 = 0 ∧ (segments.foldl widen acc).1 ≤ acc.1 ∧
    ((segments.foldl widen acc).2 % 4096 = 0 ∧ (segments.foldl widen acc).2 < 2 ^ 32) ∧
    ∀ s ∈ segments, (segments.foldl widen acc).1 ≤ s.vaddr := by
  induction segments generalizing acc with
  | nil =>
    refine ⟨hbase.resolve_right fun hne => hne.1 rfl, le_rfl, hstop, fun s hs => (by cases hs)⟩
  | cons s segments ih =>
    have hlt := hv s List.mem_cons_self
    have hdown : pageAlignDown s.vaddr = pageOf s.vaddr := and_frame hlt
    have hmod := pageOf_mod s.vaddr
    have hle : pageOf s.vaddr ≤ s.vaddr := by
      simp only [pageOf]
      omega
    have hfirst : (widen acc s).1 % 4096 = 0 ∧ (widen acc s).1 ≤ acc.1 ∧
        (widen acc s).1 ≤ s.vaddr := by
      simp only [widen, hdown]
      split_ifs <;> omega
    have hsecond : (widen acc s).2 % 4096 = 0 ∧ (widen acc s).2 < 2 ^ 32 := by
      have hup := pageAlignUp_aligned ((s.vaddr + s.memsz) % 2 ^ 32)
      simp only [widen]
      split_ifs
      · exact hup
      · exact hstop
    obtain ⟨hal, hacc, hend, hall⟩ :=
      ih (fun t ht => hv t (List.mem_cons_of_mem _ ht)) (widen acc s) (.inl hfirst.1) hsecond
    rw [List.foldl_cons]
    refine ⟨hal, by omega, hend, fun t ht => ?_⟩
    obtain rfl | ht := List.mem_cons.mp ht
    · omega
    · exact hall t ht

theorem imageSpan_aligned {segments : List Segment} (hv : ∀ s ∈ segments, s.vaddr < 2 ^ 32)
    (hne : segments ≠ []) :
    (imageSpan segments).1 % 4096 = 0 ∧ (imageSpan segments).2 % 4096 = 0 ∧
    (imageSpan segments).2 < 2 ^ 32 ∧ ∀ s ∈ segments, (imageSpan segments).1 ≤ s.vaddr := by
  have hstart : (0 : ℕ) % 4096 = 0 ∧ 0 < 2 ^ 32 := ⟨rfl, by norm_num⟩
  obtain ⟨hbase, -, ⟨hstop, hlt⟩, hall⟩ :=
    foldl_widen_aligned hv (0xFFFFFFFF, 0) (.inr ⟨hne, rfl⟩) hstart
  exact ⟨hbase, hstop, hlt, hall⟩

/-- The address `a` is between the lowest and the highest segment, in whole pages. -/
def InSpan (segments : List Segment) (a : ℕ) : Prop :=
  (∃ s ∈ segments, pageOf s.vaddr ≤ a) ∧ ∃ s ∈ segments, a < segmentEnd s

theorem SpanOf.inSpan_iff {segments : List Segment} {span : ℕ × ℕ} (hs : SpanOf segments span)
    {a : ℕ} : InSpan segments a ↔ span.1 ≤ a ∧ a < span.2 := by
  constructor
  · rintro ⟨⟨s, hmem, hlo⟩, t, htmem, hhi⟩
    exact ⟨(hs.covers s hmem).1.trans hlo, hhi.trans_le (hs.covers t htmem).2⟩
  · rintro ⟨hlo, hhi⟩
    obtain ⟨s, hmem, hbase⟩ := hs.base
    obtain hzero | ⟨t, htmem, hstop⟩ := hs.stop
    · omega
    · exact ⟨⟨s, hmem, by omega⟩, t, htmem, by omega⟩

/-! ## The pages -/

variable {h h' h₀ : HeapState} {U V : Set ℕ} {d : Directory} {kd : ℕ}

theorem allocUserPage_spends (ho : Owned h U) :
    Spends room 8218 allocUserPage h fun a h' =>
      FreshPage h U a h' ∧ ∀ o < 4096, h'.mem (a + o) = 0 := by
  refine (allocAlignedPage_spends ho).andThen fun a h' hf => setMem_bind (Spends.pure ?_)
  have hal := hf.aligned
  have hout : ∀ x ∉ pageSet a, fill h'.mem a 0 pageSize x = h'.mem x := fun x hx => by
    rw [mem_pageSet hal] at hx
    exact fill_of_outside _ _ (by simp only [pageSize]; omega)
  refine ⟨⟨hf.owned.write fun x hx => hout x fun hmem => hx (.inr hmem), hal, hf.bound, hf.fresh,
    fun x hx => (hout x (hf.fresh x hx)).trans (hf.keep x hx)⟩, fun o ho => ?_⟩
  exact fill_of_inside _ _ (by omega) (by simp only [pageSize]; omega)

/-- The first `n` of the pages `P`. -/
def pagesBelow (P : ℕ → ℕ) (n : ℕ) : Set ℕ := {x | ∃ j < n, x ∈ pageSet (P j)}

/-- Pages that do not overlap. -/
structure Frames (P : ℕ → ℕ) (n : ℕ) : Prop where
  aligned : ∀ j < n, P j % 4096 = 0 ∧ P j + 4096 < 2 ^ 32
  distinct : ∀ j < n, ∀ k < n, P j = P k → j = k

/-- `image_pages` at `arr` holds the pages `P`. -/
structure Recorded (m : ℕ → UInt8) (arr : ℕ) (P : ℕ → ℕ) (n : ℕ) : Prop where
  entries : ∀ j < n, load 4 m (arr + 4 * j) = P j

/-- The entries of a directory with the pages `P` mapped from `base` on. -/
def imagePte (base : ℕ) (P : ℕ → ℕ) (n p : ℕ) : ℕ :=
  if base / 4096 ≤ p ∧ p < base / 4096 + n then P (p - base / 4096) + 7 else p * 4096 + 3

/-- After `i` rounds of the loop: `V` is the other memory in use, `arr` the array
    of `n` entries. -/
structure ImageLoop (kd : ℕ) (V : Set ℕ) (pd arr n base : ℕ) (h₀ : HeapState) (i : ℕ) (P : ℕ → ℕ)
    (d : Directory) (h : HeapState) : Prop where
  pd : d.pd = pd
  kernel : pageSet kd ⊆ V
  array : ∀ x ∈ V, x ∉ Set.Ico arr (arr + 4 * n)
  space : Space kd h (V ∪ Set.Ico arr (arr + 4 * n) ∪ pagesBelow P i) d
  pte : d.pte = imagePte base P i
  frames : Frames P i
  fresh : ∀ x ∈ pagesBelow P i, x ∉ V ∪ Set.Ico arr (arr + 4 * n)
  recorded : Recorded h.mem arr P i
  zero : ∀ x ∈ pagesBelow P i, h.mem x = 0
  keep : ∀ x ∈ V, h.mem x = h₀.mem x

theorem pagesBelow_succ (P : ℕ → ℕ) (i a : ℕ) :
    pagesBelow (Function.update P i a) (i + 1) = pagesBelow P i ∪ pageSet a := by
  ext x
  constructor
  · rintro ⟨j, hj, hx⟩
    by_cases hji : j = i
    · rw [hji, Function.update_self] at hx
      exact .inr hx
    · rw [Function.update_of_ne hji] at hx
      exact .inl ⟨j, by omega, hx⟩
  · rintro (⟨j, hj, hx⟩ | hx)
    · exact ⟨j, by omega, by rwa [Function.update_of_ne (by omega)]⟩
    · exact ⟨i, by omega, by rwa [Function.update_self]⟩

theorem Frames.snoc {P : ℕ → ℕ} {i a : ℕ} (hP : Frames P i) (ha : a % 4096 = 0)
    (hlt : a + 4096 < 2 ^ 32) (hne : ∀ j < i, P j ≠ a) : Frames (Function.update P i a) (i + 1) := by
  constructor
  · intro j hj
    by_cases hji : j = i
    · rw [hji, Function.update_self]
      exact ⟨ha, hlt⟩
    · rw [Function.update_of_ne hji]
      exact hP.aligned j (by omega)
  · intro j hj k hk heq
    by_cases hji : j = i <;> by_cases hki : k = i
    · rw [hji, hki]
    · rw [hji, Function.update_self, Function.update_of_ne hki] at heq
      exact absurd heq.symm (hne k (by omega))
    · rw [hki, Function.update_self, Function.update_of_ne hji] at heq
      exact absurd heq (hne j (by omega))
    · rw [Function.update_of_ne hji, Function.update_of_ne hki] at heq
      exact hP.distinct j (by omega) k (by omega) heq

theorem imagePte_succ (base : ℕ) (P : ℕ → ℕ) (i a : ℕ) :
    Function.update (imagePte base P i) (base / 4096 + i) (a + 7) =
      imagePte base (Function.update P i a) (i + 1) := by
  funext p
  by_cases hp : p = base / 4096 + i
  · rw [hp, Function.update_self, imagePte, if_pos (by omega), Nat.add_sub_cancel_left,
      Function.update_self]
  · rw [Function.update_of_ne hp]
    unfold imagePte
    by_cases hin : base / 4096 ≤ p ∧ p < base / 4096 + i
    · rw [if_pos hin, if_pos (by omega), Function.update_of_ne (by omega)]
    · rw [if_neg hin, if_neg (by omega)]

/-- One round of the loop. -/
theorem ImageLoop.step {pd arr n base i : ℕ} {P : ℕ → ℕ}
    (hl : ImageLoop kd V pd arr n base h₀ i P d h) (hi : i < n) (hbase : base % 4096 = 0)
    (hfit : base + 4096 * n ≤ 2 ^ 32) :
    Spends room (8218 + 8218) (do
      let page ← allocUserPage
      writeWord (arr + 4 * i) page
      let page ← readWord (arr + 4 * i)
      pagingMapPage pd ((base + i * pageSize) % 2 ^ 32) page (pageUser ||| pageWritable)) h
      fun _ h' => ∃ P' d', ImageLoop kd V pd arr n base h₀ (i + 1) P' d' h' := by
  refine (allocUserPage_spends hl.space.owned).bind fun a h1 hq => ?_
  obtain ⟨hf, hzero⟩ := hq
  have hal := hf.aligned
  have hbound := hf.bound
  have hs1 := hl.space.acquire_page hf
  generalize hW : V ∪ Set.Ico arr (arr + 4 * n) ∪ pagesBelow P i = W at *
  have hVW : V ⊆ W := hW ▸ fun x hx => .inl (.inl hx)
  have harrW : Set.Ico arr (arr + 4 * n) ⊆ W := hW ▸ fun x hx => .inl (.inr hx)
  have hpagesW : pagesBelow P i ⊆ W := hW ▸ fun x hx => .inr hx
  apply setMem_bind
  apply readWord_bind
  generalize hmem : storeWord 4 h1.mem (arr + 4 * i) a = mem
  have hout : ∀ x, x ∉ Set.Ico arr (arr + 4 * n) → mem x = h1.mem x := by
    intro x hx
    rw [Set.mem_Ico] at hx
    rw [← hmem]
    exact storeWord_of_outside _ _ (by omega)
  have hs2 : Space kd { h1 with mem := mem } (W ∪ pageSet a) d := by
    refine hs1.write fun x hne => ?_
    have hx : x ∈ Set.Ico arr (arr + 4 * n) := by
      by_contra hx
      exact hne (hout x hx)
    exact ⟨.inl (harrW hx), fun hxk => hl.array x (hl.kernel hxk) hx⟩
  have hread : load 4 mem (arr + 4 * i) = a := by
    rw [← hmem, load_storeWord]
    exact Nat.mod_eq_of_lt (by omega)
  have hv : (base + i * pageSize) % 2 ^ 32 = base + i * 4096 :=
    Nat.mod_eq_of_lt (by simp only [pageSize]; omega)
  dsimp only
  rw [hread, hv, ← hl.pd]
  refine (hs2.map (v := base + i * 4096) (p := a) (by omega) (by omega)).imp fun _ h3 hq => ?_
  obtain ⟨d', hpd, hs3, hkeep, hpte⟩ := hq
  have hdiv : (base + i * 4096) / 4096 = base / 4096 + i := by omega
  have hpages : ∀ x ∈ W, x ∉ Set.Ico arr (arr + 4 * n) → h3.mem x = h.mem x := fun x hx hxa =>
    (hkeep x (.inl hx)).trans ((hout x hxa).trans (hf.keep x (.inl hx)))
  refine ⟨Function.update P i a, d', hpd, hl.kernel, hl.array, ?_, ?_, ?_, ?_, ?_, ?_, ?_⟩
  · rw [pagesBelow_succ, ← Set.union_assoc, hW]
    exact hs3
  · rw [hpte, hl.pte, hdiv, pageOf_eq hal, imagePte_succ]
  · refine hl.frames.snoc hal (by omega) fun j hj heq => ?_
    have hmem : a ∈ pageSet a := add_mem_pageSet (i := 0) hal (by norm_num)
    exact hf.fresh a (.inl (hpagesW ⟨j, hj, by rwa [heq]⟩)) hmem
  · rw [pagesBelow_succ]
    rintro x (hx | hx) hxV
    · exact hl.fresh x hx hxV
    · exact hf.fresh x (.inl (hxV.elim (fun h => hVW h) fun h => harrW h)) hx
  · constructor
    intro j hj
    have hword : load 4 h3.mem (arr + 4 * j) = load 4 mem (arr + 4 * j) :=
      load_congr fun b hb => hkeep _ (.inl (harrW (Set.mem_Ico.mpr (by omega))))
    rw [hword]
    by_cases hji : j = i
    · rw [hji, hread, Function.update_self]
    · rw [← hmem, load_storeWord_of_disjoint _ _ (by omega), Function.update_of_ne hji,
        load_congr fun b hb => hf.keep _ (.inl (harrW (Set.mem_Ico.mpr (by omega))))]
      exact hl.recorded.entries j (by omega)
  · rw [pagesBelow_succ]
    rintro x (hx | hx)
    · rw [hpages x (hpagesW hx) fun hxa => hl.fresh x hx (.inr hxa)]
      exact hl.zero x hx
    · have hxa : x ∉ Set.Ico arr (arr + 4 * n) := fun hxa => hf.fresh x (.inl (harrW hxa)) hx
      obtain ⟨o, ho, rfl⟩ : ∃ o < 4096, x = a + o := by
        rw [mem_pageSet hal] at hx
        exact ⟨x - a, by omega, by omega⟩
      rw [hkeep _ (.inr hx)]
      exact (hout _ hxa).trans (hzero o ho)
  · intro x hx
    rw [hpages x (hVW hx) (hl.array x hx), hl.keep x hx]

/-- The pages of the image: `V` is the memory in use before. -/
theorem allocImage_spends {n base : ℕ} (hs : Space kd h V d) (hd : d.pte = (identity d.pd).pte)
    (hn : 0 < n) (hbase : base % 4096 = 0) (hfit : base + 4096 * n ≤ 2 ^ 32) :
    Spends room (4 * n + 26 + n * (8218 + 8218)) (allocImage d.pd base n) h fun arr h' =>
      ∃ P d', ImageLoop kd V d.pd arr n base h n P d' h' := by
  rw [show 4 * n = n * 4 by ring]
  refine (kmalloc_spends hs.owned (n := n * 4) (by omega) (by omega)).bind
    (d := n * (8218 + 8218)) fun arr h1 hg => ?_
  have hstart : ImageLoop kd V d.pd arr n base h 0 (fun _ => 0) d h1 := by
    have hempty : pagesBelow (fun _ => 0) 0 = ∅ := by
      ext x
      simp [pagesBelow]
    refine ⟨rfl, hs.kernel_owned, fun x hx hxa => ?_, ?_, ?_, ⟨?_, ?_⟩, ?_, ⟨?_⟩, ?_, fun x hx =>
      hg.keep x (.inl hx)⟩
    · have := hg.fresh x (.inl hx)
      rw [Set.mem_Ico] at hxa
      omega
    · rw [hempty, Set.union_empty, show 4 * n = n * 4 by ring]
      exact hs.acquire_block hg
    · rw [hd]
      funext p
      rw [imagePte, if_neg (by omega)]
      rfl
    · exact fun j hj => absurd hj (Nat.not_lt_zero j)
    · exact fun j hj => absurd hj (Nat.not_lt_zero j)
    · rw [hempty]
      exact fun x hx => hx.elim
    · exact fun j hj => absurd hj (Nat.not_lt_zero j)
    · rw [hempty]
      exact fun x hx => hx.elim
  have hloop := Spends.forM_range (c := fun _ => 8218 + 8218)
    (I := fun i h' => ∃ P d', ImageLoop kd V d.pd arr n base h i P d' h') n ⟨_, _, hstart⟩
    fun i hi t ht => by
      obtain ⟨P, d', hl⟩ := ht
      exact hl.step hi hbase hfit
  rw [Finset.sum_const, Finset.card_range, smul_eq_mul] at hloop
  exact hloop.andThen fun _ h' hq => Spends.pure hq

/-! ## The copy loop -/

section

variable {m : ℕ → UInt8} {P : ℕ → ℕ} {n base arr dst src remaining : ℕ}

/-- The byte of the image for the virtual address `a`. -/
def imageByte (P : ℕ → ℕ) (base : ℕ) (m : ℕ → UInt8) (a : ℕ) : UInt8 :=
  m (P ((a - base) / 4096) + a % 4096)

/-- The bytes at `src` have been copied to the virtual addresses from `dst` on. -/
structure Copied (P : ℕ → ℕ) (n base dst src len : ℕ) (m m' : ℕ → UInt8) : Prop where
  outside : ∀ x ∉ pagesBelow P n, m' x = m x
  inside : ∀ a, base ≤ a → a < base + 4096 * n →
    imageByte P base m' a =
      if dst ≤ a ∧ a < dst + len then m (src + (a - dst)) else imageByte P base m a

theorem Frames.apart (hP : Frames P n) {i j x : ℕ} (hi : i < n) (hj : j < n) (hij : i ≠ j)
    (hx : x ∈ pageSet (P i)) : x ∉ pageSet (P j) := fun hx' =>
  hij (hP.distinct i hi j hj (show P i = P j from
    (show pageOf x = P i from hx).symm.trans (show pageOf x = P j from hx')))

/-- One `memcpy` inside of a page. -/
theorem copy_in_page (src : ℕ) (hP : Frames P n) (hbase : base % 4096 = 0) {len : ℕ} (hlo : base ≤ dst)
    (hhi : dst + len ≤ base + 4096 * n) (hpos : 0 < len) (hpage : dst % 4096 + len ≤ 4096) :
    Copied P n base dst src len m (copy m (P ((dst - base) / 4096) + dst % 4096) src len) := by
  have hi : (dst - base) / 4096 < n := by omega
  obtain ⟨hal, -⟩ := hP.aligned _ hi
  have hout : ∀ x ∉ pageSet (P ((dst - base) / 4096)),
      copy m (P ((dst - base) / 4096) + dst % 4096) src len x = m x := by
    intro x hx
    rw [mem_pageSet hal] at hx
    exact copy_of_outside _ _ (by omega)
  refine ⟨fun x hx => hout x fun hmem => hx ⟨_, hi, hmem⟩, fun a hlo' hhi' => ?_⟩
  have hj : (a - base) / 4096 < n := by omega
  unfold imageByte
  by_cases hij : (a - base) / 4096 = (dst - base) / 4096
  · by_cases hin : dst ≤ a ∧ a < dst + len
    · have haddr : P ((a - base) / 4096) + a % 4096 =
          P ((dst - base) / 4096) + dst % 4096 + (a - dst) := by
        rw [hij]
        omega
      rw [if_pos hin, haddr, copy_apply _ _ _ (by omega)]
    · rw [if_neg hin, hij]
      exact copy_of_outside _ _ (by omega)
  · have hin : ¬(dst ≤ a ∧ a < dst + len) := by omega
    rw [if_neg hin]
    refine hout _ (hP.apart hj hi hij ?_)
    exact add_mem_pageSet (hP.aligned _ hj).1 (Nat.mod_lt _ (by norm_num))

theorem Recorded.congr {m' : ℕ → UInt8} (hr : Recorded m arr P n)
    (h : ∀ x ∈ Set.Ico arr (arr + 4 * n), m' x = m x) : Recorded m' arr P n := by
  constructor
  intro j hj
  rw [load_congr fun b hb => h _ (Set.mem_Ico.mpr (by omega))]
  exact hr.entries j hj

/-- One round of the `while` loop, without the masks and wraps. -/
theorem chunks_cons (hbase : base % 4096 = 0) (hlo : base ≤ dst) (hend : dst + remaining < 2 ^ 32)
    (hpos : remaining ≠ 0) {len : ℕ} (hlen : len = min remaining (4096 - dst % 4096)) :
    chunks base dst src remaining = ⟨(dst - base) / 4096, dst % 4096, src, len⟩ ::
      chunks base (dst + len) ((src + len) % 2 ^ 32) (remaining - len) := by
  have hchunk : (if pageSize - (dst &&& 0xFFF) > remaining then remaining
      else pageSize - (dst &&& 0xFFF)) = len := by
    rw [and_low_twelve, hlen]
    simp only [pageSize]
    split_ifs <;> omega
  have hidx : (pageAlignDown dst + 2 ^ 32 - base) % 2 ^ 32 / pageSize = (dst - base) / 4096 := by
    have hdown : pageAlignDown dst = pageOf dst := and_frame (by omega)
    rw [hdown]
    simp only [pageOf, pageSize]
    omega
  have hdst : (dst + len) % 2 ^ 32 = dst + len := Nat.mod_eq_of_lt (by omega)
  rw [chunks, if_neg hpos]
  dsimp only
  rw [hchunk, hidx, and_low_twelve, hdst]

/-- A round copies a part of the segment, from its front to its back. -/
theorem mem_chunks (hbase : base % 4096 = 0) (hlo : base ≤ dst) (hend : dst + remaining < 2 ^ 32)
    {c : Chunk} (hc : c ∈ chunks base dst src remaining) :
    ∃ off, off + c.len ≤ remaining ∧ 0 < c.len ∧ c.pageIdx = (dst + off - base) / 4096 ∧
      (src + remaining < 2 ^ 32 → c.src = src + off) := by
  induction remaining using Nat.strong_induction_on generalizing dst src with
  | _ remaining ih =>
    by_cases hzero : remaining = 0
    · rw [chunks, if_pos hzero] at hc
      cases hc
    · obtain ⟨len, hlen⟩ : ∃ len, len = min remaining (4096 - dst % 4096) := ⟨_, rfl⟩
      rw [chunks_cons hbase hlo hend hzero hlen] at hc
      obtain rfl | hc := List.mem_cons.mp hc
      · refine ⟨0, ?_, ?_, rfl, fun _ => rfl⟩
        · dsimp only
          omega
        · dsimp only
          omega
      · obtain ⟨off, hle, hpos, hidx, hsrc⟩ :=
          ih (remaining - len) (by omega) (by omega) (by omega) hc
        refine ⟨len + off, by omega, hpos, ?_, ?_⟩
        · rw [hidx, Nat.add_assoc]
        · intro hfits
          rw [hsrc (by omega)]
          omega

/-- The indices that the loop uses are indices of `image_pages`. -/
theorem chunks_pageIdx_lt (hbase : base % 4096 = 0) (hlo : base ≤ dst)
    (hhi : dst + remaining ≤ base + 4096 * n) (hend : dst + remaining < 2 ^ 32) :
    ∀ c ∈ chunks base dst src remaining, c.pageIdx < n := by
  intro c hc
  obtain ⟨off, hle, hpos, hidx, -⟩ := mem_chunks hbase hlo hend hc
  omega

/-- The `while` loop of one segment. -/
theorem copyChunks_spec (hP : Frames P n) (hbase : base % 4096 = 0)
    (harr : ∀ x ∈ Set.Ico arr (arr + 4 * n), x ∉ pagesBelow P n)
    (hr : Recorded m arr P n) (hlo : base ≤ dst) (hhi : dst + remaining ≤ base + 4096 * n)
    (hend : dst + remaining < 2 ^ 32) (hsrc : src + remaining ≤ 2 ^ 32)
    (hapart : ∀ k < remaining, src + k ∉ pagesBelow P n) :
    Copied P n base dst src remaining m
      ((chunks base dst src remaining).foldl (copyChunk arr) m) := by
  induction remaining using Nat.strong_induction_on generalizing m dst src with
  | _ remaining ih =>
    by_cases hzero : remaining = 0
    · subst hzero
      rw [chunks, if_pos rfl]
      refine ⟨fun x _ => rfl, fun a _ _ => ?_⟩
      rw [if_neg (by omega)]
      rfl
    obtain ⟨len, hlen⟩ : ∃ len, len = min remaining (4096 - dst % 4096) := ⟨_, rfl⟩
    rw [chunks_cons hbase hlo hend hzero hlen, List.foldl_cons]
    have hstep : copyChunk arr m ⟨(dst - base) / 4096, dst % 4096, src, len⟩ =
        copy m (P ((dst - base) / 4096) + dst % 4096) src len := by
      simp only [copyChunk]
      rw [hr.entries _ (by omega)]
    have hfirst := copy_in_page (m := m) src hP hbase hlo
      (show dst + len ≤ base + 4096 * n by omega) (by omega) (by omega)
    rw [hstep]
    generalize copy m (P ((dst - base) / 4096) + dst % 4096) src len = m1 at hfirst
    have hrest := @ih (remaining - len) (by omega) m1 (dst + len) ((src + len) % 2 ^ 32)
      (hr.congr fun x hx => hfirst.outside x (harr x hx)) (by omega) (by omega) (by omega)
      (by omega) fun k hk => by
        rw [Nat.mod_eq_of_lt (by omega), Nat.add_assoc]
        exact hapart _ (by omega)
    refine ⟨fun x hx => (hrest.outside x hx).trans (hfirst.outside x hx), fun a ha ha' => ?_⟩
    rw [hrest.inside a ha ha', hfirst.inside a ha ha']
    by_cases h1 : dst + len ≤ a ∧ a < dst + len + (remaining - len)
    · have hpos : (src + len) % 2 ^ 32 + (a - (dst + len)) = src + (a - dst) := by
        rw [Nat.mod_eq_of_lt (by omega)]
        omega
      rw [if_pos h1, if_pos (by omega), hpos]
      exact hfirst.outside _ (hapart _ (by omega))
    · rw [if_neg h1]
      by_cases h2 : dst ≤ a ∧ a < dst + len
      · rw [if_pos h2, if_pos (by omega)]
      · rw [if_neg h2, if_neg (by omega)]

/-- The address `a` is in the part of the segment that comes from the file. -/
def Segment.InFile (s : Segment) (a : ℕ) : Prop := s.vaddr ≤ a ∧ a < s.vaddr + s.filesz

/-- The address `a` is in the segment. -/
def Segment.InMemory (s : Segment) (a : ℕ) : Prop := s.vaddr ≤ a ∧ a < s.vaddr + s.memsz

/-- No address is in both segments. -/
def Segment.Disj (s t : Segment) : Prop := ∀ a, ¬(s.InMemory a ∧ t.InMemory a)

instance : Std.Symm Segment.Disj := ⟨fun _ _ h a ha => h a ⟨ha.2, ha.1⟩⟩

/-- No address is in two segments. -/
def DisjointSegments (segments : List Segment) : Prop := segments.Pairwise Segment.Disj

theorem Segment.Ok.inMemory {s : Segment} (hs : s.Ok) {a : ℕ} (ha : s.InFile a) : s.InMemory a := by
  have := hs.filesz_le
  obtain ⟨hlo, hhi⟩ := ha
  exact ⟨hlo, by omega⟩

/-- The byte that the copy loop leaves at the address `a`, where `b` was before:
    of the segments with contents for `a` the last one counts. -/
def overlay (m : ℕ → UInt8) (a : ℕ) (b : UInt8) (segments : List Segment) : UInt8 :=
  segments.foldl
    (fun b s => if s.vaddr ≤ a ∧ a < s.vaddr + s.filesz then m (s.data + (a - s.vaddr)) else b) b

theorem overlay_congr {m' : ℕ → UInt8} {segments : List Segment}
    (h : ∀ s ∈ segments, ∀ k < s.filesz, m' (s.data + k) = m (s.data + k)) (a : ℕ) (b : UInt8) :
    overlay m' a b segments = overlay m a b segments := by
  induction segments generalizing b with
  | nil => rfl
  | cons s segments ih =>
    have hs := h s List.mem_cons_self
    have hhead : (if s.vaddr ≤ a ∧ a < s.vaddr + s.filesz then m' (s.data + (a - s.vaddr)) else b) =
        if s.vaddr ≤ a ∧ a < s.vaddr + s.filesz then m (s.data + (a - s.vaddr)) else b := by
      split_ifs
      · exact hs _ (by omega)
      · rfl
    rw [overlay, List.foldl_cons, hhead]
    exact ih (fun t ht => h t (List.mem_cons_of_mem _ ht)) _

theorem overlay_of_none {segments : List Segment} {a : ℕ} (h : ∀ s ∈ segments, ¬s.InFile a)
    (b : UInt8) : overlay m a b segments = b := by
  induction segments generalizing b with
  | nil => rfl
  | cons s segments ih =>
    have hs : ¬(s.vaddr ≤ a ∧ a < s.vaddr + s.filesz) := h s List.mem_cons_self
    rw [overlay, List.foldl_cons, if_neg hs]
    exact ih (fun t ht => h t (List.mem_cons_of_mem _ ht)) b

theorem overlay_of_mem {segments : List Segment} (hok : ∀ s ∈ segments, s.Ok)
    (hdisj : DisjointSegments segments) {s : Segment} (hs : s ∈ segments) {a : ℕ} (ha : s.InFile a)
    (b : UInt8) : overlay m a b segments = m (s.data + (a - s.vaddr)) := by
  induction segments generalizing b with
  | nil => cases hs
  | cons t segments ih =>
    obtain ⟨hhead, htail⟩ := List.pairwise_cons.mp hdisj
    rw [overlay, List.foldl_cons]
    obtain rfl | hs := List.mem_cons.mp hs
    · -- later segments have no contents for the address
      have hin : s.vaddr ≤ a ∧ a < s.vaddr + s.filesz := ha
      rw [if_pos hin]
      exact overlay_of_none (fun u hu hau => hhead u hu a
        ⟨(hok s List.mem_cons_self).inMemory ha, (hok u (List.mem_cons_of_mem _ hu)).inMemory hau⟩) _
    · exact ih (fun u hu => hok u (List.mem_cons_of_mem _ hu)) htail hs _

/-- The segments have been laid over the pages. -/
structure Overlaid (P : ℕ → ℕ) (n base : ℕ) (segments : List Segment) (m m' : ℕ → UInt8) : Prop where
  outside : ∀ x ∉ pagesBelow P n, m' x = m x
  inside : ∀ a, base ≤ a → a < base + 4096 * n →
    imageByte P base m' a = overlay m a (imageByte P base m a) segments

/-- The contents of each segment go to pages of the image. -/
structure FitsImage (base n : ℕ) (s : Segment) : Prop where
  place : s.filesz ≠ 0 →
    base ≤ s.vaddr ∧ s.vaddr + s.filesz ≤ base + 4096 * n ∧ s.vaddr + s.filesz < 2 ^ 32
  data_fits : s.data + s.filesz ≤ 2 ^ 32

theorem copySegments_overlaid {segments : List Segment} (hP : Frames P n) (hbase : base % 4096 = 0)
    (harr : ∀ x ∈ Set.Ico arr (arr + 4 * n), x ∉ pagesBelow P n)
    (hr : Recorded m arr P n) (hfit : ∀ s ∈ segments, FitsImage base n s)
    (hapart : ∀ s ∈ segments, ∀ k < s.filesz, s.data + k ∉ pagesBelow P n) :
    Overlaid P n base segments m (copySegments arr base segments m) := by
  induction segments generalizing m with
  | nil => exact ⟨fun _ _ => rfl, fun _ _ _ => rfl⟩
  | cons s segments ih =>
    have hs := hfit s List.mem_cons_self
    have hcopy : Copied P n base s.vaddr s.data s.filesz m
        ((chunks base s.vaddr s.data s.filesz).foldl (copyChunk arr) m) := by
      by_cases hzero : s.filesz = 0
      · rw [hzero, chunks, if_pos rfl]
        refine ⟨fun x _ => rfl, fun a _ _ => ?_⟩
        rw [if_neg (by omega)]
        rfl
      · obtain ⟨hlo, hhi, hend⟩ := hs.place hzero
        exact copyChunks_spec hP hbase harr hr hlo hhi hend hs.data_fits
          (hapart s List.mem_cons_self)
    have hunfold : copySegments arr base (s :: segments) m = copySegments arr base segments
        ((chunks base s.vaddr s.data s.filesz).foldl (copyChunk arr) m) := rfl
    rw [hunfold]
    generalize (chunks base s.vaddr s.data s.filesz).foldl (copyChunk arr) m = m1 at *
    have hrest := ih (hr.congr fun x hx => hcopy.outside x (harr x hx))
      (fun t ht => hfit t (List.mem_cons_of_mem _ ht))
      (fun t ht => hapart t (List.mem_cons_of_mem _ ht))
    refine ⟨fun x hx => (hrest.outside x hx).trans (hcopy.outside x hx), fun a ha ha' => ?_⟩
    rw [hrest.inside a ha ha', hcopy.inside a ha ha', overlay_congr fun t ht k hk =>
      hcopy.outside _ (hapart t (List.mem_cons_of_mem _ ht) k hk)]
    rfl

end

/-! ## The whole image -/

/-- The number of pages of the image. -/
def pageCount (segments : List Segment) : ℕ :=
  ((imageSpan segments).2 - (imageSpan segments).1) / 4096

/-- What the loaders need of the segments: the addresses are 32-bit words, and the
    contents of each segment, in memory in use, go to the span. -/
structure Loadable (U : Set ℕ) (segments : List Segment) : Prop where
  vaddr_lt : ∀ s ∈ segments, s.vaddr < 2 ^ 32
  inside : ∀ s ∈ segments, s.filesz ≠ 0 → s.vaddr + s.filesz ≤ (imageSpan segments).2
  data_fits : ∀ s ∈ segments, s.data + s.filesz ≤ 2 ^ 32
  data : ∀ s ∈ segments, ∀ k < s.filesz, s.data + k ∈ U

theorem Loadable.mono {segments : List Segment} (hl : Loadable U segments) (hV : U ⊆ V) :
    Loadable V segments :=
  ⟨hl.vaddr_lt, hl.inside, hl.data_fits, fun s hs k hk => hV (hl.data s hs k hk)⟩

theorem SpanOf.inside {segments : List Segment} {span : ℕ × ℕ} (hs : SpanOf segments span)
    {s : Segment} (hmem : s ∈ segments) : span.1 ≤ s.vaddr ∧ s.vaddr + s.memsz ≤ span.2 := by
  obtain ⟨hlo, hhi⟩ := hs.covers s hmem
  simp only [pageOf, segmentEnd] at hlo hhi
  omega

theorem Loadable.of_ok {segments : List Segment} (hne : segments ≠ []) (hok : ∀ s ∈ segments, s.Ok)
    (hdata : ∀ s ∈ segments, ∀ k < s.filesz, s.data + k ∈ U) : Loadable U segments where
  vaddr_lt s hs := by
    have := (hok s hs).fits
    omega
  inside s hs _ := by
    have hle := (hok s hs).filesz_le
    have hin := ((imageSpan_spec hne hok).inside hs).2
    omega
  data_fits s hs := (hok s hs).data_fits
  data := hdata

/-- The image of `segments` is in the pages `P`, mapped in the directory that `d`
    describes. `h₀` was the heap before, `V` the memory in use then. -/
structure ImageReady (kd : ℕ) (V : Set ℕ) (segments : List Segment) (h₀ : HeapState) (P : ℕ → ℕ)
    (d : Directory) (W : Set ℕ) (h : HeapState) : Prop where
  space : Space kd h W d
  owned : V ∪ pagesBelow P (pageCount segments) ⊆ W
  pte : d.pte = imagePte (imageSpan segments).1 P (pageCount segments)
  frames : Frames P (pageCount segments)
  fresh : ∀ x ∈ pagesBelow P (pageCount segments), x ∉ V
  contents : ∀ a, (imageSpan segments).1 ≤ a → a < (imageSpan segments).2 →
    imageByte P (imageSpan segments).1 h.mem a = overlay h₀.mem a 0 segments
  keep : ∀ x ∈ V, h.mem x = h₀.mem x

theorem imageByte_mem {P : ℕ → ℕ} {n base a : ℕ} (hP : Frames P n) (hlo : base ≤ a)
    (hhi : a < base + 4096 * n) : P ((a - base) / 4096) + a % 4096 ∈ pagesBelow P n := by
  have hj : (a - base) / 4096 < n := by omega
  exact ⟨_, hj, add_mem_pageSet (hP.aligned _ hj).1 (Nat.mod_lt _ (by norm_num))⟩

/-- The span in pages. -/
theorem span_pages {segments : List Segment} (hv : ∀ s ∈ segments, s.vaddr < 2 ^ 32)
    (hlt : (imageSpan segments).1 < (imageSpan segments).2) :
    (imageSpan segments).1 % 4096 = 0 ∧
    (imageSpan segments).1 + 4096 * pageCount segments = (imageSpan segments).2 ∧
    (imageSpan segments).2 < 2 ^ 32 ∧ ∀ s ∈ segments, (imageSpan segments).1 ≤ s.vaddr := by
  have hne : segments ≠ [] := by
    rintro rfl
    exact absurd hlt (by decide)
  obtain ⟨hbase, hstop, htop, hall⟩ := imageSpan_aligned hv hne
  refine ⟨hbase, ?_, htop, hall⟩
  unfold pageCount
  omega

/-- The image of the segments. -/
theorem loadImage_spends {segments : List Segment} (hs : Space kd h V d)
    (hd : d.pte = (identity d.pd).pte) (hload : Loadable V segments)
    (hlt : (imageSpan segments).1 < (imageSpan segments).2) :
    Spends room (4 * pageCount segments + 26 + pageCount segments * (8218 + 8218))
      (loadImage d.pd segments) h fun _ h' =>
        ∃ P d' W, d'.pd = d.pd ∧ ImageReady kd V segments h P d' W h' := by
  obtain ⟨hbase, hcount, htop, hall⟩ := span_pages hload.vaddr_lt hlt
  refine (allocImage_spends hs hd (n := pageCount segments) (by omega) hbase (by omega)).andThen
    fun arr h1 hq => setMem_bind (Spends.pure ?_)
  obtain ⟨P, d', hl⟩ := hq
  have hfit : ∀ s ∈ segments, FitsImage (imageSpan segments).1 (pageCount segments) s :=
    fun s hmem => ⟨fun hpos => by
      have := hload.inside s hmem hpos
      exact ⟨hall s hmem, by omega, by omega⟩, hload.data_fits s hmem⟩
  have hfill := copySegments_overlaid hl.frames hbase
    (fun x hx hxp => hl.fresh x hxp (.inr hx)) hl.recorded hfit
    (fun s hmem k hk hxp => hl.fresh _ hxp (.inl (hload.data s hmem k hk)))
  refine ⟨P, d', V ∪ Set.Ico arr (arr + 4 * pageCount segments) ∪ pagesBelow P (pageCount segments),
    hl.pd, ?_, ?_, hl.pte, hl.frames, fun x hx hxV => hl.fresh x hx (.inl hxV), ?_, ?_⟩
  · refine hl.space.write fun x hne => ?_
    have hx : x ∈ pagesBelow P (pageCount segments) := by
      by_contra hx
      exact hne (hfill.outside x hx)
    exact ⟨.inr hx, fun hxk => hl.fresh x hx (.inl (hl.kernel hxk))⟩
  · rintro x (hx | hx)
    · exact .inl (.inl hx)
    · exact .inr hx
  · intro a ha ha'
    have hzero : imageByte P (imageSpan segments).1 h1.mem a = 0 :=
      hl.zero _ (imageByte_mem hl.frames ha (by omega))
    rw [hfill.inside a ha (by omega), hzero]
    exact overlay_congr (fun s hmem k hk => hl.keep _ (hload.data s hmem k hk)) a 0
  · intro x hx
    exact (hfill.outside x fun hxp => hl.fresh x hxp (.inl hx)).trans (hl.keep x hx)

end Mboot.Process
