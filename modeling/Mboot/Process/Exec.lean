import Mboot.Process.Spawn

/-!
# Replacing the program of a process

`scheduler_exec_replace` has its own copy of the loader and of the code that builds
the stack. It copies the arguments first, from the address space of the caller, and
builds the frame on the stack of the task.

* `execReplace_ready`: the memory of the process afterwards (`Ready`).
* `spawn_and_exec_agree`: a process that is created and a process that is replaced
  show the same image outside of the pages of their stacks, and the same initial
  stack.
* `stack_hides_replaced_image`: the two stacks are at different addresses, so a
  program that is linked into the heap can look different.
-/

namespace Mboot.Process

open Common
open Heap (HeapState Owned Grant room kmalloc_spends)
open Paging

variable {h h' h₀ : HeapState} {U V W : Set ℕ} {d : Directory} {kd n : ℕ}

/-! ## The arguments of the caller -/

/-- The virtual addresses that lead to memory in `U`. -/
def visible (m : ℕ → UInt8) (cr3 : ℕ) (U : Set ℕ) : Set ℕ :=
  {v | v < 2 ^ 32 ∧ ∃ x ∈ U, translate m cr3 v = some x}

theorem Describes.seen_eq {m m' : ℕ → UInt8} (hd : Describes m d) (hm : ∀ x ∈ U ∪ d.pages, m' x = m x)
    {v : ℕ} (hv : v ∈ visible m d.pd U) : seen m' d.pd v = seen m d.pd v := by
  obtain ⟨hlt, x, hx, htr⟩ := hv
  rw [hd.translate hlt, Option.some.injEq] at htr
  rw [seen, seen, hd.readVirtual hlt fun y hy => hm y (.inr hy),
    hd.readVirtual hlt fun _ _ => rfl, htr, hm x (.inl hx)]

theorem copyArgOf_spends {argv : ℕ → ℕ} {args : ℕ → List UInt8} {i : ℕ} (hs : Space kd h V d)
    (hU : U ⊆ V) (hargs : Arguments (seen h.mem d.pd) (visible h.mem d.pd U) argv args n) (hi : i < n) :
    Spends room ((args i).length + 27) (copyArgOf d.pd (argv i)) h
      (Duplicated kd h V d (args i ++ [0])) := by
  have hshort := hargs.short i hi
  refine strlen_bind (fun h => seen h.mem d.pd) (hargs.cString hi) hshort ?_
  refine duplicate_spends (fun m => bytesVirtual m d.pd (argv i) ((args i).length + 1)) hs
    (by simp) (by omega) (by omega) fun m hm => ?_
  have hsame : bytesVirtual m d.pd (argv i) ((args i).length + 1) =
      slice (seen h.mem d.pd) (argv i) ((args i).length + 1) :=
    slice_congr fun k hk => Describes.seen_eq (U := U) hs.desc
      (fun x hx => hm x (hx.imp (fun hxU => hU hxU) id)) (hargs.inside i hi k (by omega))
  rw [hsame, hargs.string i hi]

/-- While the arguments are copied: `h₀` was the heap before, with the memory `U` in
    use. -/
structure Copying (kd : ℕ) (h₀ : HeapState) (U : Set ℕ) (d : Directory) (args : ℕ → List UInt8)
    (V : Set ℕ) (ptrs : List ℕ) (h : HeapState) : Prop where
  space : Space kd h V d
  owned : U ⊆ V
  copies : Copies h.mem (U ∪ d.pages) V args ptrs
  keep : ∀ x ∈ U ∪ d.pages, h.mem x = h₀.mem x

theorem Copying.step {args : ℕ → List UInt8} {ptrs : List ℕ} {p : ℕ}
    (hc : Copying kd h₀ U d args V ptrs h)
    (hdup : Duplicated kd h V d (args ptrs.length ++ [0]) p h') :
    Copying kd h₀ U d args (V ∪ Set.Ico p (p + (args ptrs.length ++ [0]).length)) (ptrs ++ [p]) h' := by
  have hlen : (args ptrs.length ++ [0]).length = (args ptrs.length).length + 1 := by simp
  have hUd : ∀ x ∈ U ∪ d.pages, x ∈ V ∪ d.pages := fun x hx => hx.imp (fun hxU => hc.owned hxU) id
  refine ⟨hdup.space, hc.owned.trans Set.subset_union_left, Copies.snoc ?_ ?_ fun k hk => ?_,
    fun x hx => (hdup.keep x (hUd x hx)).trans (hc.keep x hx)⟩
  · exact hc.copies.congr subset_rfl Set.subset_union_left fun x hx _ => hdup.keep x (.inl hx)
  · rw [← hlen, hdup.bytes]
  · have hmem : p + k ∈ Set.Ico p (p + (args ptrs.length ++ [0]).length) :=
      Set.mem_Ico.mpr (by omega)
    have hbound := hdup.bound
    exact ⟨.inr hmem, fun hx => hdup.fresh _ (hUd _ hx) hmem, by omega⟩

theorem copyArgs_spends {argv : ℕ → ℕ} {args : ℕ → List UInt8} {ptrs : List ℕ} {k : ℕ}
    (hargs : Arguments (seen h₀.mem d.pd) (visible h₀.mem d.pd U) argv args (ptrs.length + k))
    (hnull : ∀ i < ptrs.length + k, argv i ≠ 0) (hd : Describes h₀.mem d)
    (hc : Copying kd h₀ U d args V ptrs h) :
    Spends room (∑ i ∈ Finset.range k, ((args (ptrs.length + i)).length + 27))
      (copyArgs d.pd argv k ptrs) h fun ptrs' h' =>
        ptrs'.length = ptrs.length + k ∧ ∃ V', Copying kd h₀ U d args V' ptrs' h' := by
  induction k generalizing h V ptrs with
  | zero => exact Spends.pure ⟨rfl, V, hc⟩
  | succ k ih =>
    rw [copyArgs, if_neg (hnull _ (by omega)), Finset.sum_range_succ', Nat.add_zero, Nat.add_comm]
    have hvis : ∀ v ∈ visible h₀.mem d.pd U, v ∈ visible h.mem d.pd U := by
      rintro v ⟨hlt, x, hx, htr⟩
      refine ⟨hlt, x, hx, ?_⟩
      rwa [hd.translate hlt, ← (hd.congr fun y hy => hc.keep y (.inr hy)).translate hlt] at htr
    have hargs' : Arguments (seen h.mem d.pd) (visible h.mem d.pd U) argv args (ptrs.length + (k + 1)) := by
      have hcong := hargs.congr fun v hv => Describes.seen_eq hd hc.keep hv
      exact ⟨hcong.string, hcong.text, hcong.short, fun i hi j hj => hvis _ (hcong.inside i hi j hj)⟩
    refine (copyArgOf_spends hc.space hc.owned hargs' (Nat.lt_add_of_pos_right k.succ_pos)).bind
      fun p h1 hdup => ?_
    have hlen : (ptrs ++ [p]).length = ptrs.length + 1 := by simp
    have hcount : (ptrs ++ [p]).length + k = ptrs.length + (k + 1) := by omega
    rw [← hcount] at hargs hnull
    have hrun := ih hargs hnull (hc.step hdup)
    simp only [hcount] at hrun
    simp only [hlen, Nat.add_assoc, Nat.add_comm 1] at hrun
    exact hrun

/-! ## The new directory -/

/-- The new directory before the image is loaded: `h₀` was the heap before, with the
    memory `U` and the directory `d` of the task in use. -/
structure Prepared (kd : ℕ) (h₀ : HeapState) (U : Set ℕ) (d : Directory) (args : ℕ → List UInt8)
    (V : Set ℕ) (ptrs : List ℕ) (dir : ℕ) (h : HeapState) : Prop where
  space : Space kd h V (identity dir)
  owned : U ∪ d.pages ⊆ V
  copies : Copies h.mem (U ∪ d.pages) V args ptrs
  keep : ∀ x ∈ U ∪ d.pages, h.mem x = h₀.mem x

theorem execPrepare_spends {argv : ℕ → ℕ} {args : ℕ → List UInt8} (hs : Space kd h U d)
    (hargs : Arguments (seen h.mem d.pd) (visible h.mem d.pd U) argv args n)
    (hnull : ∀ i < n, argv i ≠ 0) :
    Spends room (∑ i ∈ Finset.range n, ((args i).length + 27) + (8218 + cloneCost d + 8218))
      (execPrepare kd d.pd n argv) h fun r h' =>
        r.1.length = n ∧ ∃ V, Prepared kd h U d args V r.1 r.2 h' := by
  have hstart : Copying kd h U d args U [] h := by
    refine ⟨hs, subset_rfl, ⟨?_, ?_, ?_⟩, fun _ _ => rfl⟩
    · exact fun i hi => absurd hi (Nat.not_lt_zero i)
    · exact fun p hp => (by cases hp)
    · exact fun i hi => absurd hi (Nat.not_lt_zero i)
  rw [← Nat.zero_add n, ← List.length_nil (α := ℕ)] at hargs hnull
  have hcopy := copyArgs_spends hargs hnull hs.desc hstart
  simp only [List.length_nil, Nat.zero_add] at hcopy
  refine hcopy.bind fun ptrs h1 hq => ?_
  obtain ⟨hlen, V, hc⟩ := hq
  have hUV : U ∪ d.pages ⊆ V ∪ d.pages := Set.union_subset_union_left _ hc.owned
  refine hc.space.clone_spends.bind fun child h2 hq => ?_
  obtain ⟨c, rfl, hcl⟩ := hq
  have hfree := freeDirectory_spends kd hcl.owned hcl.desc fun x hx => .inl (.inr hx)
  rw [← Nat.zero_add 8218]
  refine hfree.bind fun _ h3 hq => ?_
  obtain ⟨ho3, hkeep3⟩ := hq
  have hV3 : ∀ x ∈ V ∪ d.pages, h3.mem x = h1.mem x := fun x hx =>
    (hkeep3 x fun hxc => hcl.pages_fresh x hxc hx).trans (hcl.keep x hx)
  have hkdV : pageSet kd ⊆ V ∪ d.pages := hc.space.kernel_owned.trans Set.subset_union_left
  refine (Space.create (ho3.mono fun x hx => .inl (.inl hx))
    (hc.space.kernel.congr fun x hx => hV3 x (hkdV hx)) hkdV).andThen fun dir h4 hq => Spends.pure ?_
  obtain ⟨hs4, hkeep4⟩ := hq
  have hV4 : ∀ x ∈ V ∪ d.pages, h4.mem x = h1.mem x := fun x hx => (hkeep4 x hx).trans (hV3 x hx)
  exact ⟨hlen, V ∪ d.pages, hs4, hUV, hc.copies.congr subset_rfl Set.subset_union_left
    fun x hx _ => hV4 x (.inl hx), fun x hx => (hV4 x (hUV hx)).trans (hc.keep x hx)⟩

/-! ## The stack -/

/-- The stack of the new program, at `stack`: `V` was in use before the image was
    loaded to the pages `P`. It is the stack the task has, or it is new. -/
structure ExecStack (kd : ℕ) (V : Set ℕ) (stackBase : ℕ) (P : ℕ → ℕ) (n stack : ℕ) (W : Set ℕ) :
    Prop where
  bound : stack + 65536 + 2 ^ 23 ≤ 2 ^ 32
  owned : Set.Ico stack (stack + 65536) ⊆ W
  kernel : ∀ x ∈ Set.Ico stack (stack + 65536), x ∉ pageSet kd
  pages : ∀ x ∈ Set.Ico stack (stack + 65536), x ∉ pagesBelow P n
  same : stackBase ≠ 0 → stack = stackBase
  fresh : stackBase = 0 → ∀ x ∈ Set.Ico stack (stack + 65536), x ∉ V

/-- What is known of the stack of the task. -/
structure HasStack (kd : ℕ) (U : Set ℕ) (stackBase : ℕ) : Prop where
  bound : stackBase + 65536 + 2 ^ 23 ≤ 2 ^ 32
  owned : Set.Ico stackBase (stackBase + 65536) ⊆ U
  kernel : ∀ x ∈ Set.Ico stackBase (stackBase + 65536), x ∉ pageSet kd

theorem ImageReady.acquire_block {segments : List Segment} {P : ℕ → ℕ} {size p : ℕ}
    (himg : ImageReady kd V segments h₀ P d W h) (hload : Loadable V segments)
    (hlt : (imageSpan segments).1 < (imageSpan segments).2)
    (hg : Grant h (W ∪ d.pages) size p h') :
    ImageReady kd V segments h₀ P d (W ∪ Set.Ico p (p + size)) h' := by
  obtain ⟨-, hcount, -, -⟩ := span_pages hload.vaddr_lt hlt
  refine ⟨himg.space.acquire_block hg, himg.owned.trans Set.subset_union_left, himg.pte, himg.frames,
    himg.fresh, fun a ha ha' => ?_, fun x hx =>
      (hg.keep x (.inl (himg.owned (.inl hx)))).trans (himg.keep x hx)⟩
  rw [← himg.contents a ha ha', imageByte, imageByte]
  exact hg.keep _ (.inl (himg.owned (.inr (imageByte_mem himg.frames ha (by omega)))))

theorem execStack_spends {segments : List Segment} {P : ℕ → ℕ} {stackBase : ℕ}
    (himg : ImageReady kd V segments h₀ P d W h) (hload : Loadable V segments)
    (hlt : (imageSpan segments).1 < (imageSpan segments).2)
    (hst : stackBase ≠ 0 → HasStack kd V stackBase) :
    Spends room 65562 (execStack stackBase) h fun stack h' => ∃ W',
      ImageReady kd V segments h₀ P d W' h' ∧
        ExecStack kd V stackBase P (pageCount segments) stack W' := by
  unfold execStack
  by_cases hzero : stackBase = 0
  · rw [if_pos hzero]
    refine (kmalloc_spends himg.space.owned (n := 65536) (by norm_num) (by norm_num)).imp
      fun stack h1 hg => ?_
    have hfresh : ∀ x ∈ Set.Ico stack (stack + 65536), x ∉ W := fun x hx hxW => by
      have := hg.fresh x (.inl hxW)
      rw [Set.mem_Ico] at hx
      omega
    have hVW : V ⊆ W := fun x hx => himg.owned (.inl hx)
    exact ⟨_, himg.acquire_block hload hlt hg, hg.bound, Set.subset_union_right,
      fun x hx hxk => hfresh x hx (himg.space.kernel_owned hxk),
      fun x hx hxP => hfresh x hx (himg.owned (.inr hxP)), fun hne => absurd hzero hne,
      fun _ x hx hxV => hfresh x hx (hVW hxV)⟩
  · rw [if_neg hzero]
    have hs := hst hzero
    refine (Spends.pure ⟨W, himg, hs.bound, fun x hx => himg.owned (.inl (hs.owned hx)), hs.kernel,
      fun x hx hxP => himg.fresh x hxP (hs.owned hx), fun _ => rfl, fun heq => absurd heq hzero⟩).mono
      (Nat.zero_le _) fun _ _ hq => hq

/-- The frame is the one that `create_user_task_from_segments` builds. -/
theorem execFrame_spends {stack entry : ℕ} {kargv : List ℕ} (hs : Space kd h W d)
    (hst : StackIn kd W stack (stack + 65536)) (hn : kargv.length ≤ 16) :
    Spends room 0 (execFrame stack entry kargv) h fun sp h' =>
      sp = stack + 65536 - 4 * (kargv.length + 15) ∧ Space kd h' W d ∧
        WordsAt 4 h'.mem sp (frameWords entry kargv) ∧
        ∀ x ∉ Set.Ico sp (stack + 65536), h'.mem x = h.mem x := by
  have hlen : ([0, 0] ++ kargv.reverse ++ [kargv.length, 0x202, gdtCodeSeg, entry] ++
      List.replicate 9 0).length = kargv.length + 15 := by
    simp only [List.length_append, List.length_reverse, List.length_replicate, List.length_cons,
      List.length_nil]
    omega
  have hrev : ([0, 0] ++ kargv.reverse ++ [kargv.length, 0x202, gdtCodeSeg, entry] ++
      List.replicate 9 0).reverse ++ [] = frameWords entry kargv := by
    simp [frameWords]
  refine (pushWords_spends hs hst (by rw [hlen]; simp only [taskStackSize]; omega)
    (by simp only [taskStackSize]; omega) (.nil _ _ _)).imp fun sp h' hq => ?_
  obtain ⟨hsp, hs', hwords, hkeep⟩ := hq
  rw [hlen] at hsp hkeep
  rw [hrev] at hwords
  simp only [taskStackSize, Nat.reduceMul] at hsp hkeep
  rw [← hsp] at hkeep
  exact ⟨hsp, hs', hwords, hkeep⟩

/-- The new image and the new stack, in the directory `d`: `h₁` was the heap before,
    with the memory `V` in use. -/
structure Staged (kd : ℕ) (h₁ : HeapState) (V : Set ℕ) (segments : List Segment) (stackBase entry : ℕ)
    (ptrs : List ℕ) (stack sp : ℕ) (P : ℕ → ℕ) (d : Directory) (W : Set ℕ) (h : HeapState) :
    Prop where
  space : Space kd h W d
  owned : V ∪ pagesBelow P (pageCount segments) ⊆ W
  place : ExecStack kd V stackBase P (pageCount segments) stack W
  pte : d.pte = stackPte (imagePte (imageSpan segments).1 P (pageCount segments)) (pageOf stack)
    (stack + 65536)
  frames : Frames P (pageCount segments)
  fresh : ∀ x ∈ pagesBelow P (pageCount segments), x ∉ V
  contents : ∀ a, (imageSpan segments).1 ≤ a → a < (imageSpan segments).2 →
    imageByte P (imageSpan segments).1 h.mem a = overlay h₁.mem a 0 segments
  sp_eq : sp = stack + 65536 - 4 * (ptrs.length + 15)
  words : WordsAt 4 h.mem sp (frameWords entry ptrs)
  keep : ∀ x ∈ V, x ∉ Set.Ico sp (stack + 65536) → h.mem x = h₁.mem x

theorem execBuild_spends {segments : List Segment} {stackBase dir entry : ℕ} {ptrs : List ℕ}
    (hs : Space kd h V (identity dir)) (hload : Loadable V segments)
    (hlt : (imageSpan segments).1 < (imageSpan segments).2)
    (hst : stackBase ≠ 0 → HasStack kd V stackBase) (hn : ptrs.length ≤ 16) :
    Spends room (4 * pageCount segments + 26 + pageCount segments * (8218 + 8218) +
        (65562 + 17 * 8218)) (execBuild dir segments stackBase entry ptrs) h fun r h' =>
      ∃ P d W, d.pd = dir ∧ Staged kd h V segments stackBase entry ptrs r.1 r.2 P d W h' := by
  obtain ⟨-, hcount, -, -⟩ := span_pages hload.vaddr_lt hlt
  refine (loadImage_spends hs rfl hload hlt).bind fun _ h2 hq => ?_
  obtain ⟨P, d2, W2, hpd2, himg2⟩ := hq
  have hpd2 : d2.pd = dir := hpd2
  refine (execStack_spends himg2 hload hlt hst).bind (d := 17 * 8218) fun stack h3 hq => ?_
  obtain ⟨W, himg, hstack⟩ := hq
  rw [← hpd2]
  refine (himg.mapStack_spends hstack.bound).andThen fun _ h4 hq => ?_
  obtain ⟨d4, hpd4, hs4, hpte4, hkeep4⟩ := hq
  refine (execFrame_spends hs4 ⟨hstack.owned, hstack.kernel⟩ hn).andThen fun sp h5 hq =>
    Spends.pure ?_
  obtain ⟨hsp, hs5, hwords, hkeep5⟩ := hq
  refine ⟨P, d4, W, hpd4, hs5, himg.owned, hstack, hpte4, himg.frames, himg.fresh,
    fun a ha ha' => ?_, hsp, hwords, fun x hx hxs => ?_⟩
  · have hmem := imageByte_mem himg.frames ha (show a < _ by omega)
    rw [← himg.contents a ha ha', imageByte, imageByte, hkeep5 _ fun hxs => ?_,
      hkeep4 _ (himg.owned (.inr hmem))]
    refine hstack.pages _ ?_ hmem
    rw [Set.mem_Ico] at hxs ⊢
    omega
  · rw [hkeep5 x hxs, hkeep4 x (himg.owned (.inl hx)), himg.keep x hx]

/-! ## The old directory and the saved registers -/

/-- Clearing another directory leaves a space as it is. -/
theorem Space.free_other {old : Directory} (hs : Space kd h W d) (hold : Describes h.mem old)
    (hW : old.pages ⊆ W) (hkd : ∀ x ∈ pageSet kd, x ∉ old.pages) :
    Spends room 0 (pagingFreeDirectory kd old.pd) h fun _ h' =>
      Space kd h' W d ∧ ∀ x ∉ old.pages, h'.mem x = h.mem x := by
  refine (freeDirectory_spends _ hs.owned hold fun x hx => .inl (hW hx)).imp fun _ h' hq => ?_
  obtain ⟨ho, hkeep⟩ := hq
  refine ⟨hs.others ho hs.kernel_owned hs.apart fun x hx => hkeep x ?_, hkeep⟩
  obtain hx | hx := hx
  · exact hkd x hx
  · exact fun hxo => hs.apart x (hW hxo) hx

/-- A word is written at an address that is mapped to itself. -/
theorem writeWordVirtual_spends {v w : ℕ} (hs : Space kd h W d) (hv : v + 4 ≤ 2 ^ 32)
    (hid : ∀ x ∈ Set.Ico v (v + 4), pageOf (d.pte (x / 4096)) + x % 4096 = x)
    (hW : Set.Ico v (v + 4) ⊆ W) (hkd : ∀ x ∈ Set.Ico v (v + 4), x ∉ pageSet kd) :
    Spends room 0 (writeWordVirtual d.pd v w) h fun _ h' =>
      Space kd h' W d ∧ ∀ x ∉ Set.Ico v (v + 4), h'.mem x = h.mem x := by
  have hloop : ∀ k ≤ 4, ∀ m : ℕ → UInt8,
      m = (List.range k).foldl (fun m i => writeVirtual m d.pd (v + i) ((leBytes 4 w).getD i 0)) h.mem →
      Space kd { h with mem := m } W d ∧ ∀ x ∉ Set.Ico v (v + 4), m x = h.mem x := by
    intro k
    induction k with
    | zero =>
      rintro - m rfl
      exact ⟨hs, fun _ _ => rfl⟩
    | succ k ih =>
      rintro hk m rfl
      obtain ⟨hs', hkeep⟩ := ih (by omega) _ rfl
      rw [List.range_succ, List.foldl_append, List.foldl_cons, List.foldl_nil]
      generalize (List.range k).foldl (fun m i => writeVirtual m d.pd (v + i) ((leBytes 4 w).getD i 0))
        h.mem = m at hs' hkeep ⊢
      have hmem : v + k ∈ Set.Ico v (v + 4) := Set.mem_Ico.mpr (by omega)
      rw [hs'.desc.writeVirtual (by omega), hid _ hmem]
      refine ⟨hs'.write fun x hne => ?_, fun x hx => ?_⟩
      · obtain rfl : x = v + k := by
          by_contra hx
          exact hne (Function.update_of_ne hx _ _)
        exact ⟨hW hmem, hkd _ hmem⟩
      · have hne : x ≠ v + k := by
          rintro rfl
          exact hx hmem
        exact (Function.update_of_ne hne _ _).trans (hkeep x hx)
  exact Spends.modify rfl (hloop 4 le_rfl _ rfl)

/-- The bytes of the saved registers that are written. -/
def savedBytes (r : ℕ) : Set ℕ := Set.Ico (r + 24) (r + 28) ∪ Set.Ico (r + 36) (r + 48)

theorem setSaved_spends {entry : ℕ} {r : Option ℕ} (hs : Space kd h W d)
    (hr : ∀ a ∈ r, ∀ x ∈ savedBytes a,
      x < 2 ^ 32 ∧ pageOf (d.pte (x / 4096)) + x % 4096 = x ∧ x ∈ W ∧ x ∉ pageSet kd) :
    Spends room 0 (setSaved d.pd entry r) h fun _ h' =>
      Space kd h' W d ∧ ∀ x, (∀ a ∈ r, x ∉ savedBytes a) → h'.mem x = h.mem x := by
  cases r with
  | none => exact Spends.pure ⟨hs, fun _ _ => rfl⟩
  | some r =>
    have hr := hr r rfl
    have hword : ∀ k w, (k = 24 ∨ k = 36 ∨ k = 40 ∨ k = 44) → ∀ {h1 : HeapState}, Space kd h1 W d →
        (∀ x ∉ savedBytes r, h1.mem x = h.mem x) →
        Spends room 0 (writeWordVirtual d.pd (r + k) w) h1 fun _ h2 =>
          Space kd h2 W d ∧ ∀ x ∉ savedBytes r, h2.mem x = h.mem x := by
      intro k w hk h1 hs1 hkeep1
      have hin : ∀ x ∈ Set.Ico (r + k) (r + k + 4), x ∈ savedBytes r := by
        intro x hx
        rw [Set.mem_Ico] at hx
        simp only [savedBytes, Set.mem_union, Set.mem_Ico]
        omega
      have hlast := (hr (r + k + 3) (hin _ (Set.mem_Ico.mpr (by omega)))).1
      refine (writeWordVirtual_spends hs1 (by omega) (fun x hx => (hr x (hin x hx)).2.1)
        (fun x hx => (hr x (hin x hx)).2.2.1) fun x hx => (hr x (hin x hx)).2.2.2).imp
        fun _ h2 hq => ⟨hq.1, fun x hx => ?_⟩
      rw [hq.2 x fun hmem => hx (hin x hmem), hkeep1 x hx]
    refine ((hword 36 entry (by omega) hs fun _ _ => rfl).andThen fun _ h1 hq => ?_)
    refine ((hword 40 gdtCodeSeg (by omega) hq.1 hq.2).andThen fun _ h2 hq => ?_)
    refine ((hword 44 0x202 (by omega) hq.1 hq.2).andThen fun _ h3 hq => ?_)
    exact (hword 24 0 (by omega) hq.1 hq.2).imp fun _ h4 hq => ⟨hq.1, fun x hx => hq.2 x (hx r rfl)⟩

/-! ## The process afterwards -/

/-- What `scheduler_exec_replace` is called with: `U` is the memory in use besides the
    directory `d` of the task. The saved registers at `r` lie neither in the new
    image nor in the words of the new initial frame. -/
structure ExecInput (kd : ℕ) (h : HeapState) (U : Set ℕ) (d : Directory) (task : TaskMemory)
    (segments : List Segment) (argv : ℕ → ℕ) (args : ℕ → List UInt8) (n : ℕ) (r : Option ℕ) :
    Prop where
  space : Space kd h U d
  pd : d.pd = task.cr3
  loadable : Loadable U segments
  args : Arguments (seen h.mem task.cr3) (visible h.mem task.cr3 U) argv args n
  nonnull : ∀ i < n, argv i ≠ 0
  stack : task.stackBase ≠ 0 → HasStack kd U task.stackBase
  saved : ∀ a ∈ r, ∀ x ∈ savedBytes a, x < 2 ^ 32 ∧ x ∈ U ∧ x ∉ pageSet kd ∧
    x ∉ Set.Ico (imageSpan segments).1 (imageSpan segments).2 ∧
    (task.stackBase ≠ 0 →
      x ∉ Set.Ico (task.stackBase + 65536 - 4 * (n + 15)) (task.stackBase + 65536))

/-- The room that is needed, with `users` pages of the task to clone. -/
def execCost (segments : List Segment) (args : ℕ → List UInt8) (n users : ℕ) : ℕ :=
  ∑ i ∈ Finset.range n, ((args i).length + 27) + (8218 + 2 * 8218 * users + 8218) +
    (4 * pageCount segments + 26 + pageCount segments * (8218 + 8218) + (65562 + 17 * 8218))

/-- An address outside of the span is mapped to itself, on a page of the stack or
    not. -/
theorem pte_outside {t : UserTask} {P : ℕ → ℕ} {x : ℕ} (hbase : t.imageBase % 4096 = 0)
    (hstop : t.imageBase + 4096 * n = t.imageEnd) (hx : x ∉ Set.Ico t.imageBase t.imageEnd)
    (hpte : d.pte = stackPte (imagePte t.imageBase P n) (pageOf t.stackBase) (t.stackBase + 65536)) :
    pageOf (d.pte (x / 4096)) + x % 4096 = x := by
  rw [hpte]
  by_cases hst : t.StackPage x
  · rw [stackPte_stack hst]
    simp only [pageOf]
    omega
  · rw [Set.mem_Ico] at hx
    rw [stackPte_other hst, imagePte, if_neg (by omega)]
    simp only [pageOf]
    omega

/-- What holds of a task whose program was replaced in the heap `h₀`. -/
structure Replaced (kd : ℕ) (h₀ : HeapState) (U : Set ℕ) (task : TaskMemory)
    (segments : List Segment) (entry n : ℕ) (args : ℕ → List UInt8) (r : Option ℕ) (t : UserTask)
    (P : ℕ → ℕ) (d : Directory) (U' : Set ℕ) (ptrs : List ℕ) (h : HeapState) :
    Prop extends Ready kd h₀.mem U segments entry n args t P d U' ptrs h where
  tcb : t.tcb = task.tcb
  stack : task.stackBase ≠ 0 → t.stackBase = task.stackBase
  keep : ∀ x ∈ U, x ∉ Set.Ico t.esp (t.stackBase + 65536) → (∀ a ∈ r, x ∉ savedBytes a) →
    h.mem x = h₀.mem x

theorem Staged.frame_subset {segments : List Segment} {stackBase entry stack sp : ℕ} {ptrs : List ℕ}
    {P : ℕ → ℕ} (hst : Staged kd h₀ V segments stackBase entry ptrs stack sp P d W h)
    (hn : ptrs.length ≤ 16) : Set.Ico sp (stack + 65536) ⊆ Set.Ico stack (stack + 65536) := by
  intro x hx
  have hsp := hst.sp_eq
  rw [Set.mem_Ico] at hx ⊢
  omega

/-- The stack is apart from memory that came into use for the new program. -/
theorem Staged.stack_apart {segments : List Segment} {stackBase entry stack sp x : ℕ}
    {ptrs : List ℕ} {P : ℕ → ℕ} (hst : Staged kd h₀ V segments stackBase entry ptrs stack sp P d W h)
    (hU : stackBase ≠ 0 → HasStack kd U stackBase) (hxV : x ∈ V) (hxU : x ∉ U) :
    x ∉ Set.Ico stack (stack + 65536) := by
  intro hxs
  by_cases hzero : stackBase = 0
  · exact hst.place.fresh hzero x hxs hxV
  · rw [hst.place.same hzero] at hxs
    exact hxU ((hU hzero).owned hxs)

theorem execReplace_ready {task : TaskMemory} {segments : List Segment} {argc : ℤ} {argv : ℕ → ℕ}
    {args : ℕ → List UInt8} {r : Option ℕ}
    (hin : ExecInput kd h U d task segments argv args (min argc.toNat maxTaskArgs) r) (entry : ℕ) :
    Spends room (execCost segments args (min argc.toNat maxTaskArgs) (userPages h.mem task.cr3))
      (schedulerExecReplace kd (some task) entry segments argc argv r) h fun res h' =>
        (res = none → segments = [] ∨ (imageSpan segments).2 ≤ (imageSpan segments).1) ∧
        ∀ t ∈ res, ∃ P d' U' ptrs, Replaced kd h U task segments entry (min argc.toNat maxTaskArgs)
          args r t P d' U' ptrs h' := by
  have hargc : min argc.toNat maxTaskArgs ≤ 16 := min_le_right _ _
  rw [schedulerExecReplace, execCost]
  generalize min argc.toNat maxTaskArgs = n at *
  by_cases hne : segments = []
  · rw [if_pos hne]
    exact (Spends.pure ⟨fun _ => .inl hne, fun t ht => by cases ht⟩).mono (Nat.zero_le _)
      fun _ _ hq => hq
  rw [if_neg hne, ← hin.pd, ← hin.space.desc.cloneCost_eq]
  have hs := hin.space
  refine (execPrepare_spends hs (hin.pd ▸ hin.args) hin.nonnull).bind fun pre h1 hq => ?_
  obtain ⟨ptrs, dir⟩ := pre
  obtain ⟨rfl, V, hprep⟩ := hq
  simp only at hargc hprep ⊢
  have hUV : U ⊆ V := fun x hx => hprep.owned (.inl hx)
  have hdV : d.pages ⊆ V := fun x hx => hprep.owned (.inr hx)
  by_cases hempty : (imageSpan segments).1 ≥ (imageSpan segments).2
  · rw [if_pos hempty]
    exact (Spends.pure ⟨fun _ => .inr hempty, fun t ht => by cases ht⟩).mono (Nat.zero_le _)
      fun _ _ hq => hq
  rw [if_neg hempty]
  have hlt : (imageSpan segments).1 < (imageSpan segments).2 := not_le.mp hempty
  obtain ⟨hbase, hcount, -, -⟩ := span_pages hin.loadable.vaddr_lt hlt
  refine (execBuild_spends hprep.space (hin.loadable.mono hUV) hlt (fun hne => ?_) hargc).andThen
    fun build h2 hq => ?_
  · have hst := hin.stack hne
    exact ⟨hst.bound, hst.owned.trans hUV, hst.kernel⟩
  obtain ⟨stack, sp⟩ := build
  obtain ⟨P, d2, W, hpd2, hst⟩ := hq
  simp only at hst ⊢
  have hVW : V ⊆ W := fun x hx => hst.owned (.inl hx)
  have hsub := hst.frame_subset hargc
  have hdU : ∀ x ∈ d.pages, x ∉ U := fun x hx hxU => hs.apart x hxU hx
  have hapart : ∀ x ∈ V, x ∉ U → x ∉ Set.Ico sp (stack + 65536) := fun x hxV hxU hxs =>
    hst.stack_apart hin.stack hxV hxU (hsub hxs)
  have hold : Describes h2.mem d := hs.desc.congr fun x hx =>
    (hst.keep x (hdV hx) (hapart x (hdV hx) (hdU x hx))).trans (hprep.keep x (.inr hx))
  refine (Space.free_other hst.space hold (hdV.trans hVW)
    fun x hx hxd => hdU x hxd (hs.kernel_owned hx)).andThen fun _ h3 hq => ?_
  obtain ⟨hs3, hkeep3⟩ := hq
  rw [← hpd2]
  refine (setSaved_spends hs3 fun a ha x hx => ?_).andThen fun _ h4 hq => Spends.pure ?_
  · obtain ⟨hx32, hxU, hxk, hxspan, -⟩ := hin.saved a ha x hx
    exact ⟨hx32, pte_outside (t := ⟨task.tcb, sp, stack, dir, _, _⟩) hbase hcount hxspan hst.pte,
      hVW (hUV hxU), hxk⟩
  obtain ⟨hs4, hkeep4⟩ := hq
  refine ⟨fun heq => (by cases heq), fun t ht => ?_⟩
  obtain rfl := Option.mem_some_iff.mp ht
  -- memory that is not of the old directory and not among the saved registers
  have hlast : ∀ x ∉ d.pages, (∀ a ∈ r, x ∉ savedBytes a) → h4.mem x = h2.mem x :=
    fun x hxd hxr => (hkeep4 x hxr).trans (hkeep3 x hxd)
  have hnew : ∀ x ∉ U ∪ d.pages, h4.mem x = h2.mem x := fun x hx =>
    hlast x (fun hxd => hx (.inr hxd)) fun a ha hxa => hx (.inl (hin.saved a ha x hxa).2.1)
  refine ⟨P, d2, W, ptrs, ⟨⟨rfl, hlt, hst.place.bound, rfl, hs4, ?_, hst.pte, hst.frames,
    fun a ha ha' => ?_, hst.sp_eq, rfl, ?_, ?_⟩, rfl, hst.place.same, fun x hx hxs hxr => ?_⟩⟩
  · rintro x ((hx | hx) | hx)
    · exact hVW (hUV hx)
    · exact hst.place.owned hx
    · exact hst.owned (.inr hx)
  · simp only at ha ha'
    have hmem := imageByte_mem hst.frames ha (show a < _ by omega)
    rw [imageByte, hnew _ fun hx => hst.fresh _ hmem (hprep.owned hx)]
    exact (hst.contents a ha ha').trans
      (overlay_congr (fun s hmem k hk => hprep.keep _ (.inl (hin.loadable.data s hmem k hk))) a 0)
  · refine hst.words.congr fun x hx hx' => ?_
    have hsp := hst.sp_eq
    rw [length_frameWords] at hx'
    have hxs : x ∈ Set.Ico sp (stack + 65536) := Set.mem_Ico.mpr (by omega)
    refine hlast x (fun hxd => hapart x (hdV hxd) (hdU x hxd) hxs) fun a ha hxa => ?_
    obtain ⟨-, hxU, -, -, hframe⟩ := hin.saved a ha x hxa
    by_cases hzero : task.stackBase = 0
    · exact hst.place.fresh hzero x (hsub hxs) (hUV hxU)
    · refine hframe hzero ?_
      rwa [← hst.place.same hzero, ← hsp]
  · refine hprep.copies.congr Set.subset_union_left hVW fun x hx hxU => ?_
    rw [hnew x hxU, hst.keep x hx (hapart x hx fun hxU' => hxU (.inl hxU'))]
  · rw [hlast x (hs.apart x hx) hxr, hst.keep x (hUV hx) hxs, hprep.keep x (.inl hx)]

/-! ## The two processes -/

/-- The word at the virtual address `v`. -/
def wordVirtual (m : ℕ → UInt8) (cr3 v : ℕ) : Option ℕ :=
  ((List.range 4).mapM fun i => readVirtual m cr3 (v + i)).map leValue

/-- What the process `t` finds when it starts. Through its directory it reads the
    words of the initial frame at its stack pointer. The pointers lead to copies of
    the arguments; the process reads them where its image does not lie. -/
structure Presents (m : ℕ → UInt8) (t : UserTask) (entry : ℕ) (args : ℕ → List UInt8)
    (ptrs : List ℕ) : Prop where
  words : ∀ k < (frameWords entry ptrs).length,
    wordVirtual m t.cr3 (t.esp + 4 * k) = some ((frameWords entry ptrs).getD k 0)
  copies : ∀ i < ptrs.length, slice m (ptrs.getD i 0) ((args i).length + 1) = args i ++ [0]
  strings : ∀ i < ptrs.length, ∀ k ≤ (args i).length,
    ptrs.getD i 0 + k ∉ Set.Ico t.imageBase t.imageEnd →
      readVirtual m t.cr3 (ptrs.getD i 0 + k) = some ((args i ++ [0]).getD k 0)

theorem frameWords_lt {entry : ℕ} {ptrs : List ℕ} (hentry : entry < 2 ^ 32) (hn : ptrs.length ≤ 16)
    (hptrs : ∀ p ∈ ptrs, p < 2 ^ 32) (k : ℕ) : (frameWords entry ptrs).getD k 0 < 2 ^ 32 := by
  have hall : ∀ w ∈ frameWords entry ptrs, w < 2 ^ 32 := by
    simp only [frameWords, gdtCodeSeg, List.mem_append, List.mem_replicate, List.mem_cons,
      List.not_mem_nil, or_false]
    rintro w (((⟨-, rfl⟩ | rfl | rfl | rfl | rfl) | hw) | rfl | rfl)
    any_goals omega
    exact hptrs w hw
  by_cases hk : k < (frameWords entry ptrs).length
  · rw [List.getD_eq_getElem _ _ hk]
    exact hall _ (List.getElem_mem hk)
  · rw [List.getD_eq_default _ _ (by omega)]
    norm_num

section

variable {m₀ : ℕ → UInt8} {segments : List Segment} {entry a : ℕ} {args : ℕ → List UInt8}
  {t : UserTask} {P : ℕ → ℕ} {U' : Set ℕ} {ptrs : List ℕ}

theorem Ready.read_stack (hr : Ready kd m₀ U segments entry n args t P d U' ptrs h)
    (hst : t.StackPage a) : readVirtual h.mem t.cr3 a = some (h.mem a) := by
  rw [readVirtual, hr.translate_stack hst, Option.map_some]

theorem Ready.word_stack (hr : Ready kd m₀ U segments entry n args t P d U' ptrs h)
    (hlo : t.stackBase ≤ a) (hhi : a + 4 ≤ t.stackBase + 65536) :
    wordVirtual h.mem t.cr3 a = some (load 4 h.mem a) := by
  have hread : ∀ i < 4, readVirtual h.mem t.cr3 (a + i) = some (h.mem (a + i)) := fun i hi => by
    refine hr.read_stack ⟨?_, ?_⟩ <;> simp only [pageOf, taskStackSize] <;> omega
  have h0 : readVirtual h.mem t.cr3 a = some (h.mem a) := hread 0 (by norm_num)
  have h1 := hread 1 (by norm_num)
  have h2 := hread 2 (by norm_num)
  have h3 := hread 3 (by norm_num)
  simp [wordVirtual, load, slice, List.range_succ, List.range_zero, h0, h1, h2, h3]

theorem Ready.presents (hr : Ready kd m₀ U segments entry n args t P d U' ptrs h)
    (hv : ∀ s ∈ segments, s.vaddr < 2 ^ 32) (hentry : entry < 2 ^ 32) (hn : n ≤ 16) :
    Presents h.mem t entry args ptrs := by
  have hlen := hr.argc
  have hesp := hr.esp
  refine ⟨fun k hk => ?_, hr.copies.string, fun i hi k hk hout => ?_⟩
  · have hword := hr.words k hk
    rw [length_frameWords] at hk
    rw [hr.word_stack (by omega) (by omega), hword, show (256 : ℕ) ^ 4 = 2 ^ 32 by norm_num,
      Nat.mod_eq_of_lt (frameWords_lt hentry (by omega) hr.copies.bound k)]
  · obtain ⟨hbase, hcount, -⟩ := hr.span_pages hv
    obtain ⟨-, -, hlt⟩ := hr.copies.inside i hi k hk
    have hin : k < (slice h.mem (ptrs.getD i 0) ((args i).length + 1)).length := by
      rw [length_slice]
      omega
    rw [← hr.pd, hr.space.desc.readVirtual hlt fun _ _ => rfl, pte_outside hbase hcount hout hr.pte,
      ← hr.copies.string i hi, List.getD_eq_getElem _ _ hin, getElem_slice]

end

/-- The same program in two memories: the same places and sizes, and the same
    contents. -/
def SameProgram (m₁ m₂ : ℕ → UInt8) : List Segment → List Segment → Prop :=
  List.Forall₂ fun s t => s.vaddr = t.vaddr ∧ s.filesz = t.filesz ∧ s.memsz = t.memsz ∧
    ∀ k < s.filesz, m₁ (s.data + k) = m₂ (t.data + k)

theorem SameProgram.imageSpan_eq {m₁ m₂ : ℕ → UInt8} {segs₁ segs₂ : List Segment}
    (hsame : SameProgram m₁ m₂ segs₁ segs₂) : imageSpan segs₁ = imageSpan segs₂ := by
  unfold imageSpan
  generalize (0xFFFFFFFF, 0) = acc
  induction hsame generalizing acc with
  | nil => rfl
  | @cons s t segs₁ segs₂ hst _ ih =>
    obtain ⟨hvaddr, -, hmemsz, -⟩ := hst
    have hwiden : widen acc s = widen acc t := by simp only [widen, hvaddr, hmemsz]
    rw [List.foldl_cons, List.foldl_cons, hwiden]
    exact ih _

theorem SameProgram.overlay_eq {m₁ m₂ : ℕ → UInt8} {segs₁ segs₂ : List Segment}
    (hsame : SameProgram m₁ m₂ segs₁ segs₂) (a : ℕ) (b : UInt8) :
    overlay m₁ a b segs₁ = overlay m₂ a b segs₂ := by
  induction hsame generalizing b with
  | nil => rfl
  | @cons s t segs₁ segs₂ hst _ ih =>
    obtain ⟨hvaddr, hfilesz, -, hdata⟩ := hst
    have hbyte : (if s.vaddr ≤ a ∧ a < s.vaddr + s.filesz then m₁ (s.data + (a - s.vaddr)) else b) =
        if t.vaddr ≤ a ∧ a < t.vaddr + t.filesz then m₂ (t.data + (a - t.vaddr)) else b := by
      rw [← hvaddr, ← hfilesz]
      split_ifs
      · exact hdata _ (by omega)
      · rfl
    rw [overlay, List.foldl_cons, hbyte]
    exact ih _

/-- For the same program, entry point and arguments, the process that
    `create_user_task_from_segments` makes and the process that
    `scheduler_exec_replace` leaves: the same bytes in the span of the image outside of
    the pages of the two stacks, and in both the initial stack for the first 16
    arguments. Both functions return the process if the heap has room. -/
theorem spawn_and_exec_agree {kd₁ kd₂ entry : ℕ} {h₁ h₂ : HeapState} {U₁ U₂ : Set ℕ}
    {d : Directory} {task : TaskMemory} {segs₁ segs₂ : List Segment} {argc : ℤ}
    {argv₁ argv₂ : ℕ → ℕ} {args : ℕ → List UInt8} {r : Option ℕ} (hentry : entry < 2 ^ 32)
    (hargc : 0 ≤ argc)
    (hcreate : CreateInput kd₁ h₁ U₁ segs₁ argv₁ args (min argc.toNat maxTaskArgs))
    (hexec : ExecInput kd₂ h₂ U₂ d task segs₂ argv₂ args (min argc.toNat maxTaskArgs) r)
    (hsame : SameProgram h₁.mem h₂.mem segs₁ segs₂) :
    (∀ t₁ h₁' t₂ h₂',
      createUserTaskFromSegments kd₁ entry segs₁ argc argv₁ h₁ = some (some t₁, h₁') →
      schedulerExecReplace kd₂ (some task) entry segs₂ argc argv₂ r h₂ = some (some t₂, h₂') →
      (t₁.imageBase, t₁.imageEnd) = (t₂.imageBase, t₂.imageEnd) ∧
      (∀ a, t₁.imageBase ≤ a → a < t₁.imageEnd → ¬t₁.StackPage a → ¬t₂.StackPage a →
        readVirtual h₁'.mem t₁.cr3 a = some (overlay h₁.mem a 0 segs₁) ∧
        readVirtual h₂'.mem t₂.cr3 a = some (overlay h₁.mem a 0 segs₁)) ∧
      (∃ ptrs, ptrs.length = min argc.toNat maxTaskArgs ∧ Presents h₁'.mem t₁ entry args ptrs) ∧
      ∃ ptrs, ptrs.length = min argc.toNat maxTaskArgs ∧ Presents h₂'.mem t₂ entry args ptrs) ∧
    ((imageSpan segs₁).1 < (imageSpan segs₁).2 →
      (createCost segs₁ args (min argc.toNat maxTaskArgs) ≤ room h₁ → ∃ t₁ h₁',
        createUserTaskFromSegments kd₁ entry segs₁ argc argv₁ h₁ = some (some t₁, h₁')) ∧
      (execCost segs₂ args (min argc.toNat maxTaskArgs) (userPages h₂.mem task.cr3) ≤ room h₂ →
        ∃ t₂ h₂', schedulerExecReplace kd₂ (some task) entry segs₂ argc argv₂ r h₂ =
          some (some t₂, h₂'))) := by
  have hcr := createUserTask_created hcreate entry
  have hex := execReplace_ready hexec entry
  have hn : min argc.toNat maxTaskArgs ≤ 16 := min_le_right _ _
  have hspan := hsame.imageSpan_eq
  refine ⟨fun t₁ h₁' t₂ h₂' hcall₁ hcall₂ => ?_, fun hlt => ⟨fun hroom => ?_, fun hroom => ?_⟩⟩
  · obtain ⟨P₁, d₁, V₁, ptrs₁, hr₁⟩ := (hcr.post _ _ hcall₁).1.2 t₁ rfl
    obtain ⟨P₂, d₂, V₂, ptrs₂, hr₂⟩ := (hex.post _ _ hcall₂).1.2 t₂ rfl
    have hends : (t₁.imageBase, t₁.imageEnd) = (t₂.imageBase, t₂.imageEnd) := by
      rw [hr₁.span, hr₂.span, hspan]
    obtain ⟨hb, he⟩ := Prod.mk.inj hends
    refine ⟨hends, fun a hlo hhi hst₁ hst₂ => ⟨?_, ?_⟩, ⟨ptrs₁, hr₁.argc, ?_⟩, ptrs₂, hr₂.argc, ?_⟩
    · exact hr₁.read_image hcreate.loadable.vaddr_lt hlo hhi hst₁
    · rw [hsame.overlay_eq]
      exact hr₂.read_image hexec.loadable.vaddr_lt (by omega) (by omega) hst₂
    · exact hr₁.presents hcreate.loadable.vaddr_lt hentry hn
    · exact hr₂.presents hexec.loadable.vaddr_lt hentry hn
  · obtain ⟨res, h₁', hcall, ⟨hnone, -⟩, -⟩ := hcr.result hroom
    cases res with
    | some t => exact ⟨t, h₁', hcall⟩
    | none =>
      obtain hneg | hnil | hle := hnone rfl
      · omega
      · rw [hnil] at hlt
        exact absurd hlt (by decide)
      · omega
  · obtain ⟨res, h₂', hcall, ⟨hnone, -⟩, -⟩ := hex.result hroom
    rw [hspan] at hlt
    cases res with
    | some t => exact ⟨t, h₂', hcall⟩
    | none =>
      obtain hnil | hle := hnone rfl
      · rw [hnil] at hlt
        exact absurd hlt (by decide)
      · omega

/-! ## The small machine -/

theorem pagedHeap_arguments : slice pagedHeap.mem 0x7C00 2 = [1, 0] := by
  obtain ⟨⟨-, -, hkeep⟩, -⟩ := (pagingInit_spends busyHeap_owned).post _ _ pagedHeap_eq
  have hzero : pagedHeap.mem 0x7C01 = 0 := hkeep _ (by simp [lowMemory])
  simp [slice, List.range_succ, pagedHeap_byte, hzero]

/-- The first task of the machine makes a system call, with its frame at `0x2011F00` on
    its stack and one argument at `0x7C00`. Another task could be created there. -/
structure FirstCall (segs : List Segment) (t : UserTask) (d : Directory) (U : Set ℕ) (h : HeapState) :
    Prop where
  call : createUserTaskFromSegments 0x2001000 0x40000000 [⟨0x40000000, 1, 2, 0x7C00⟩] 0 (fun _ => 0)
    pagedHeap = some (some t, h)
  stack : t.stackBase = 0x2002094
  owned : Set.Ico 0x2002094 (0x2002094 + 65536) ⊆ U
  zero : h.mem 0x2003000 = 0
  byte : h.mem 0x7C00 = 1
  create : CreateInput 0x2001000 h (U ∪ d.pages) segs (fun _ => 0x7C00) (fun _ => [1]) 1
  exec : ExecInput 0x2001000 h U d ⟨t.tcb, t.stackBase, t.cr3⟩ segs (fun _ => 0x7C00) (fun _ => [1]) 1
    (some 0x2011F00)
  room_create : createCost segs (fun _ => [1]) 1 ≤ room h
  room_exec : execCost segs (fun _ => [1]) 1 (userPages h.mem t.cr3) ≤ room h

theorem firstCall {segs : List Segment} {base : ℕ} (hs : SmallImage segs base)
    (hout : ∀ x ∈ savedBytes 0x2011F00, x ∉ Set.Ico base (base + 4096)) :
    ∃ t d U h, FirstCall segs t d U h := by
  obtain ⟨t, P, d, U, ptrs, h, hcall, -, hstack, hroom, hsp⟩ :=
    pagedHeap_spawns program_small 0x40000000
  have hlow : lowMemory ⊆ U := fun x hx => hsp.owned (.inl (.inl (.inl hx)))
  have howned : Set.Ico 0x2002094 (0x2002094 + 65536) ⊆ U := fun x hx =>
    hsp.owned (.inl (.inr (by rwa [hstack])))
  have hmem : ∀ k < 2, h.mem (0x7C00 + k) = pagedHeap.mem (0x7C00 + k) := fun k hk =>
    hsp.keep _ (.inl (by simp only [lowMemory, Set.mem_ofPred_eq]; omega))
  have hstring : slice h.mem 0x7C00 2 = [1, 0] := (slice_congr hmem).trans pagedHeap_arguments
  have hload : ∀ V, U ⊆ V → Loadable V segs := fun V hV => hs.loadable (hV (hlow (by simp [lowMemory])))
  -- low memory is mapped to itself in the directory of the task
  have hid : ∀ v < 0x100000, translate h.mem t.cr3 v = some v := fun v hv => by
    have hst : ¬t.StackPage v := fun hst => by
      have := hst.1
      simp only [hstack, pageOf] at this
      omega
    have hspan : v ∉ Set.Ico t.imageBase t.imageEnd := fun hin => by
      have hends := hsp.span
      rw [program_small.span, Prod.mk.injEq] at hends
      rw [Set.mem_Ico] at hin
      omega
    rw [← hsp.pd, hsp.space.desc.translate (by omega),
      hsp.pte_kernel (by simp) hst hspan]
    simp only [pageOf, Option.some.injEq]
    omega
  have hseen : slice (seen h.mem t.cr3) 0x7C00 2 = [1, 0] := by
    rw [← hstring]
    refine slice_congr fun k hk => ?_
    rw [seen, readVirtual, hid _ (by omega), Option.map_some, Option.getD_some]
  have hpages := hsp.userPages_le (by simp)
  rw [program_small.pageCount_eq] at hpages
  have hfresh : ∀ x ∈ Set.Ico 0x2002094 (0x2002094 + 65536), x ∉ pageSet 0x2001000 := fun x hx hxk =>
    hsp.stack_fresh x (by rwa [hstack]) (.inr hxk)
  refine ⟨t, d, U, h, hcall, hstack, howned, hsp.stack_zero _ ?_, (hmem 0 (by norm_num)).trans pagedHeap_byte,
    ⟨hsp.space.owned, hsp.space.kernel, hsp.space.kernel_owned.trans Set.subset_union_left,
      hload _ Set.subset_union_left, ⟨fun _ _ => hstring, by simp, by simp, ?_⟩⟩,
    ⟨hsp.space, hsp.pd, hload _ subset_rfl, ⟨fun _ _ => hseen, by simp, by simp, ?_⟩, by simp, ?_, ?_⟩,
    ?_, ?_⟩
  · rw [hstack, Set.mem_Ico]
    norm_num
  · intro i _ k hk
    exact .inl (hlow (by simp only [lowMemory, Set.mem_ofPred_eq, List.length_singleton] at hk ⊢; omega))
  · intro i _ k hk
    rw [List.length_singleton] at hk
    exact ⟨by omega, 0x7C00 + k, hlow (by simp only [lowMemory, Set.mem_ofPred_eq]; omega),
      hid _ (by omega)⟩
  · intro _
    rw [hstack]
    exact ⟨by norm_num, howned, hfresh⟩
  · intro a ha x hx
    obtain rfl := Option.mem_some_iff.mp ha
    have hx' := hout x hx
    simp only [savedBytes, Set.mem_union, Set.mem_Ico] at hx
    have hin : x ∈ Set.Ico 0x2002094 (0x2002094 + 65536) := Set.mem_Ico.mpr (by omega)
    refine ⟨by omega, howned hin, hfresh x hin, by rwa [hs.span], fun _ => ?_⟩
    simp only [hstack, Set.mem_Ico]
    omega
  · rw [createCost, hs.pageCount_eq]
    simp only [Finset.sum_range_one, List.length_singleton]
    omega
  · rw [execCost, hs.pageCount_eq]
    have hclone : 2 * 8218 * userPages h.mem t.cr3 ≤ 2 * 8218 * 18 := Nat.mul_le_mul_left _ hpages
    simp only [Finset.sum_range_one, List.length_singleton]
    linarith

/-- A program of one byte, with one argument: both processes show it. -/
theorem spawn_and_exec_agree_program : ∃ t d U h t₁ h₁ t₂ h₂,
    FirstCall [⟨0x40000000, 1, 2, 0x7C00⟩] t d U h ∧
    createUserTaskFromSegments 0x2001000 0x40000000 [⟨0x40000000, 1, 2, 0x7C00⟩] 1 (fun _ => 0x7C00) h =
      some (some t₁, h₁) ∧
    schedulerExecReplace 0x2001000 (some ⟨t.tcb, t.stackBase, t.cr3⟩) 0x40000000
      [⟨0x40000000, 1, 2, 0x7C00⟩] 1 (fun _ => 0x7C00) (some 0x2011F00) h = some (some t₂, h₂) ∧
    (∃ ptrs, ptrs.length = 1 ∧ Presents h₁.mem t₁ 0x40000000 (fun _ => [1]) ptrs) ∧
    ∃ ptrs, ptrs.length = 1 ∧ Presents h₂.mem t₂ 0x40000000 (fun _ => [1]) ptrs := by
  obtain ⟨t, d, U, h, hf⟩ := firstCall program_small fun x hx => by
    simp only [savedBytes, Set.mem_union, Set.mem_Ico] at hx ⊢
    omega
  have hsame : SameProgram h.mem h.mem [(⟨0x40000000, 1, 2, 0x7C00⟩ : Segment)]
      [⟨0x40000000, 1, 2, 0x7C00⟩] := .cons ⟨rfl, rfl, rfl, fun _ _ => rfl⟩ .nil
  have hentry : 0x40000000 < 2 ^ 32 := by norm_num
  have hargc : (0 : ℤ) ≤ 1 := by norm_num
  obtain ⟨hagree, hreturns⟩ := spawn_and_exec_agree hentry hargc hf.create hf.exec hsame
  obtain ⟨hret₁, hret₂⟩ := hreturns (by rw [program_small.span]; norm_num)
  obtain ⟨t₁, h₁, hcall₁⟩ := hret₁ hf.room_create
  obtain ⟨t₂, h₂, hcall₂⟩ := hret₂ hf.room_exec
  obtain ⟨-, -, hp₁, hp₂⟩ := hagree t₁ h₁ t₂ h₂ hcall₁ hcall₂
  exact ⟨t, d, U, h, t₁, h₁, t₂, h₂, hf, hcall₁, hcall₂, hp₁, hp₂⟩

/-- A program that is linked at an address of the stack of the task: a new task shows
    it, the task itself shows its stack. -/
theorem stack_hides_replaced_image : ∃ t d U h t₁ h₁ t₂ h₂,
    FirstCall [⟨0x2003000, 1, 1, 0x7C00⟩] t d U h ∧
    createUserTaskFromSegments 0x2001000 0x2003000 [⟨0x2003000, 1, 1, 0x7C00⟩] 1 (fun _ => 0x7C00) h =
      some (some t₁, h₁) ∧
    schedulerExecReplace 0x2001000 (some ⟨t.tcb, t.stackBase, t.cr3⟩) 0x2003000
      [⟨0x2003000, 1, 1, 0x7C00⟩] 1 (fun _ => 0x7C00) (some 0x2011F00) h = some (some t₂, h₂) ∧
    readVirtual h₁.mem t₁.cr3 0x2003000 = some 1 ∧ readVirtual h₂.mem t₂.cr3 0x2003000 = some 0 := by
  have hsmall : SmallImage [⟨0x2003000, 1, 1, 0x7C00⟩] 0x2003000 :=
    ⟨by simpa using ⟨by decide, by decide, by decide⟩, rfl, by simp⟩
  obtain ⟨t, d, U, h, hf⟩ := firstCall hsmall fun x hx => by
    simp only [savedBytes, Set.mem_union, Set.mem_Ico] at hx ⊢
    omega
  have hcreate : CreateInput 0x2001000 h (U ∪ d.pages) [⟨0x2003000, 1, 1, 0x7C00⟩]
      (fun _ => 0x7C00) (fun _ => [1]) (min (1 : ℤ).toNat maxTaskArgs) := hf.create
  have hexec : ExecInput 0x2001000 h U d ⟨t.tcb, t.stackBase, t.cr3⟩ [⟨0x2003000, 1, 1, 0x7C00⟩]
      (fun _ => 0x7C00) (fun _ => [1]) (min (1 : ℤ).toNat maxTaskArgs) (some 0x2011F00) := hf.exec
  have hcr := createUserTask_created hcreate 0x2003000
  have hex := execReplace_ready hexec 0x2003000
  obtain ⟨res₁, h₁, hcall₁, ⟨hnone₁, hsome₁⟩, -⟩ := hcr.result hf.room_create
  obtain ⟨res₂, h₂, hcall₂, ⟨hnone₂, hsome₂⟩, -⟩ := hex.result hf.room_exec
  have hspan := hsmall.span
  cases res₁ with
  | none =>
    have hempty := hnone₁ rfl
    rw [hspan] at hempty
    simp at hempty
  | some t₁ =>
    cases res₂ with
    | none =>
      have hempty := hnone₂ rfl
      rw [hspan] at hempty
      simp at hempty
    | some t₂ =>
      obtain ⟨P₁, d₁, V₁, ptrs₁, hr₁⟩ := hsome₁ t₁ rfl
      obtain ⟨P₂, d₂, V₂, ptrs₂, hr₂⟩ := hsome₂ t₂ rfl
      have hends := hr₁.span
      rw [hspan, Prod.mk.injEq] at hends
      refine ⟨t, d, U, h, t₁, h₁, t₂, h₂, hf, hcall₁, hcall₂, ?_, ?_⟩
      · -- the new stack is apart from the stack of the task
        have hst : ¬t₁.StackPage 0x2003000 := by
          rintro ⟨hlo, hhi⟩
          simp only [pageOf, taskStackSize] at hlo hhi
          refine hr₁.stack_fresh (max t₁.stackBase 0x2003000) (Set.mem_Ico.mpr (by omega))
            (.inl (hf.owned (Set.mem_Ico.mpr (by omega))))
        rw [hr₁.read_image hf.create.loadable.vaddr_lt (by omega) (by omega) hst]
        simp [overlay, hf.byte]
      · have hbase : t₂.stackBase = 0x2002094 := (hr₂.stack (by simp [hf.stack])).trans hf.stack
        have hst : t₂.StackPage 0x2003000 := by
          rw [UserTask.StackPage, hbase]
          decide
        rw [hr₂.read_stack hst, hr₂.keep _ (hf.owned (Set.mem_Ico.mpr (by omega))) ?_ ?_, hf.zero]
        · rw [hr₂.esp, hbase, Set.mem_Ico]
          norm_num
        · intro a ha
          obtain rfl := Option.mem_some_iff.mp ha
          simp only [savedBytes, Set.mem_union, Set.mem_Ico]
          omega

end Mboot.Process
