import Mboot.Process.Image

/-!
# Creating a process

* `mapStack_spends`, `initialFrame_spends`: the stack, with the initial frame and
  copies of the arguments.
* `createUserTask_created`: the memory of a new process (`Created`).
* `image_loading_correct`: what is read through the new directory.
-/

namespace Mboot.Process

open Common
open Heap (HeapState Owned Grant room kmalloc_spends)
open Paging

variable {h h' h₀ : HeapState} {U V : Set ℕ} {d : Directory} {kd : ℕ}

/-! ## The stack -/

/-- The entries of a directory after the pages from `addr` to `stop` have been
    mapped to themselves. -/
def stackPte (pte : ℕ → ℕ) (addr stop p : ℕ) : ℕ :=
  if addr ≤ p * 4096 ∧ p * 4096 < stop then p * 4096 + 7 else pte p

theorem mapStack_spends {n addr stop : ℕ} (hs : Space kd h U d) (haddr : addr % 4096 = 0)
    (hstop : stop < 2 ^ 32) (hn : stop ≤ addr + 4096 * n) :
    Spends room (n * 8218) (mapStack d.pd addr stop) h fun _ h' =>
      ∃ d', d'.pd = d.pd ∧ Space kd h' U d' ∧ d'.pte = stackPte d.pte addr stop ∧
        ∀ x ∈ U, h'.mem x = h.mem x := by
  induction n generalizing h d addr with
  | zero =>
    rw [mapStack, if_neg (by omega), Nat.zero_mul]
    refine Spends.pure ⟨d, rfl, hs, ?_, fun _ _ => rfl⟩
    funext p
    rw [stackPte, if_neg (by omega)]
  | succ n ih =>
    rw [mapStack]
    by_cases hlt : addr < stop
    · rw [if_pos hlt, Nat.succ_mul, Nat.add_comm]
      refine (hs.map (v := addr) (p := addr) (by omega) (by omega)).bind fun _ h1 hq => ?_
      obtain ⟨d1, hpd, hs1, hkeep, hpte⟩ := hq
      rw [← hpd]
      have hnext : (addr + pageSize) % 4096 = 0 := by
        simp only [pageSize]
        omega
      refine (ih hs1 hnext (by simp only [pageSize]; omega)).imp fun _ h2 hq => ?_
      obtain ⟨d2, hpd2, hs2, hpte2, hkeep2⟩ := hq
      refine ⟨d2, hpd2, hs2, ?_, fun x hx => (hkeep2 x hx).trans (hkeep x hx)⟩
      rw [hpte2, hpte, pageOf_eq haddr]
      funext p
      simp only [stackPte, pageSize]
      by_cases hp : p = addr / 4096
      · rw [if_neg (by omega), if_pos (by omega), hp, Function.update_self]
        omega
      · rw [Function.update_of_ne hp]
        by_cases hin : addr ≤ p * 4096 ∧ p * 4096 < stop
        · rw [if_pos hin, if_pos (by omega)]
        · rw [if_neg hin, if_neg (by omega)]
    · rw [if_neg hlt]
      refine (Spends.pure ⟨d, rfl, hs, ?_, fun _ _ => rfl⟩).mono (Nat.zero_le _) fun _ _ hq => hq
      funext p
      rw [stackPte, if_neg (by omega)]

/-- Where the stack lies in a space: pushes stay inside. -/
structure StackIn (kd : ℕ) (U : Set ℕ) (lo hi : ℕ) : Prop where
  owned : Set.Ico lo hi ⊆ U
  apart : ∀ x ∈ Set.Ico lo hi, x ∉ pageSet kd

theorem StackIn.push {lo hi sp w : ℕ} (hst : StackIn kd U lo hi) (hs : Space kd h U d)
    (hlo : lo + 4 ≤ sp) (hhi : sp ≤ hi) :
    Space kd { h with mem := storeWord 4 h.mem (sp - 4) w } U d := by
  refine hs.write fun x hne => ?_
  have hx : x ∈ Set.Ico lo hi := by
    rw [Set.mem_Ico]
    by_contra hx
    exact hne (storeWord_of_outside _ _ (by omega))
  exact ⟨hst.owned hx, hst.apart x hx⟩

theorem pushWords_spends {lo hi sp : ℕ} {ws top : List ℕ} (hs : Space kd h U d)
    (hst : StackIn kd U lo hi) (hlo : lo + 4 * ws.length ≤ sp) (hhi : sp ≤ hi)
    (htop : WordsAt 4 h.mem sp top) :
    Spends room 0 (pushWords sp ws) h fun sp' h' => sp' = sp - 4 * ws.length ∧ Space kd h' U d ∧
      WordsAt 4 h'.mem sp' (ws.reverse ++ top) ∧
      ∀ x ∉ Set.Ico (sp - 4 * ws.length) sp, h'.mem x = h.mem x := by
  induction ws generalizing h sp top with
  | nil => exact Spends.pure ⟨rfl, hs, htop, fun _ _ => rfl⟩
  | cons w ws ih =>
    rw [List.length_cons] at hlo
    refine setMem_bind ((ih (hst.push hs (w := w) (by omega) hhi) (by omega) (by omega)
      (htop.push (by omega) w)).imp fun sp' h' hq => ?_)
    obtain ⟨hsp, hs', hwords, hkeep⟩ := hq
    refine ⟨by rw [hsp, List.length_cons]; omega, hs', ?_, fun x hx => ?_⟩
    · rwa [List.reverse_cons, List.append_assoc]
    · rw [Set.mem_Ico, List.length_cons] at hx
      rw [hkeep x (by rw [Set.mem_Ico]; omega)]
      exact storeWord_of_outside _ _ (by omega)

/-! ## The arguments -/

/-- A string of `len` bytes at `a`. -/
structure CString (m : ℕ → UInt8) (a len : ℕ) : Prop where
  nonzero : ∀ i < len, m (a + i) ≠ 0
  zero : m (a + len) = 0

theorem CString.strlen {m : ℕ → UInt8} {a len fuel i : ℕ} (hs : CString m a len) (hi : i ≤ len)
    (hfuel : len < i + fuel) : strlen m a fuel i = some len := by
  induction fuel generalizing i with
  | zero => omega
  | succ fuel ih =>
    rw [Process.strlen]
    by_cases heq : i = len
    · rw [heq, if_pos hs.zero]
    · rw [if_neg (hs.nonzero i (by omega)), ih (by omega) (by omega)]

/-- The first `n` arguments are the strings `args`, in the memory `T`. -/
structure Arguments (m : ℕ → UInt8) (T : Set ℕ) (argv : ℕ → ℕ) (args : ℕ → List UInt8) (n : ℕ) :
    Prop where
  string : ∀ i < n, slice m (argv i) ((args i).length + 1) = args i ++ [0]
  text : ∀ i < n, 0 ∉ args i
  short : ∀ i < n, (args i).length < 2 ^ 22
  inside : ∀ i < n, ∀ k ≤ (args i).length, argv i + k ∈ T

section

variable {m m' : ℕ → UInt8} {T : Set ℕ} {argv : ℕ → ℕ} {args : ℕ → List UInt8} {n i : ℕ}

theorem Arguments.congr (ha : Arguments m T argv args n) (h : ∀ x ∈ T, m' x = m x) :
    Arguments m' T argv args n := by
  refine ⟨fun i hi => ?_, ha.text, ha.short, ha.inside⟩
  rw [slice_congr fun k hk => h _ (ha.inside i hi k (by omega)), ha.string i hi]

theorem Arguments.mono (ha : Arguments m T argv args n) {n' : ℕ} (hn : n' ≤ n) :
    Arguments m T argv args n' :=
  ⟨fun i hi => ha.string i (by omega), fun i hi => ha.text i (by omega),
    fun i hi => ha.short i (by omega), fun i hi => ha.inside i (by omega)⟩

theorem Arguments.cString (ha : Arguments m T argv args n) (hi : i < n) :
    CString m (argv i) (args i).length := by
  have hbyte : ∀ k (hk : k < (args i).length + 1),
      m (argv i + k) = (args i ++ [0]).get ⟨k, by simpa using hk⟩ := by
    intro k hk
    have := getElem_slice m (argv i) ((args i).length + 1) k (by simpa using hk)
    simp only [ha.string i hi] at this
    exact this.symm
  constructor
  · intro k hk hzero
    refine ha.text i hi ?_
    rw [hbyte k (by omega)] at hzero
    simp only [List.get_eq_getElem, List.getElem_append_left hk] at hzero
    rw [← hzero]
    exact List.getElem_mem hk
  · rw [hbyte _ (Nat.lt_succ_self _)]
    simp

end

/-- A new block at `p` with the bytes `bs`. -/
structure Duplicated (kd : ℕ) (h : HeapState) (U : Set ℕ) (d : Directory) (bs : List UInt8) (p : ℕ)
    (h' : HeapState) : Prop where
  space : Space kd h' (U ∪ Set.Ico p (p + bs.length)) d
  bytes : slice h'.mem p bs.length = bs
  nonnull : p ≠ 0
  bound : p + bs.length < 2 ^ 32
  fresh : ∀ x ∈ U ∪ d.pages, x ∉ Set.Ico p (p + bs.length)
  keep : ∀ x ∈ U ∪ d.pages, h'.mem x = h.mem x

/-- A block is requested and filled with bytes that come from memory in use. -/
theorem duplicate_spends {n : ℕ} {bs : List UInt8} (src : (ℕ → UInt8) → List UInt8)
    (hs : Space kd h U d) (hn : bs.length = n) (hpos : 0 < n) (hle : n ≤ 2 ^ 22)
    (hsrc : ∀ m : ℕ → UInt8, (∀ x ∈ U ∪ d.pages, m x = h.mem x) → src m = bs) :
    Spends room (n + 26) (do
      let dst ← kmalloc n
      setMem fun m => store m dst (src m)
      return dst) h (Duplicated kd h U d bs) := by
  subst hn
  refine (kmalloc_spends hs.owned hpos hle).andThen fun p h2 hg => setMem_bind (Spends.pure ?_)
  have hbound := hg.bound
  have hnonnull := hg.nonnull
  rw [hsrc h2.mem hg.keep]
  have hout : ∀ x ∉ Set.Ico p (p + bs.length), store h2.mem p bs x = h2.mem x :=
    fun x hx => store_of_outside _ (by rw [Set.mem_Ico] at hx; omega)
  have hfresh : ∀ x ∈ U ∪ d.pages, x ∉ Set.Ico p (p + bs.length) := fun x hx hmem => by
    have := hg.fresh x hx
    rw [Set.mem_Ico] at hmem
    omega
  refine ⟨(hs.acquire_block hg).write fun x hne => ?_, slice_store _ _ _, by omega, by omega, hfresh,
    fun x hx => (hout x (hfresh x hx)).trans (hg.keep x hx)⟩
  have hx : x ∈ Set.Ico p (p + bs.length) := by
    by_contra hx
    exact hne (hout x hx)
  exact ⟨.inr hx, fun hxk => hfresh x (.inl (hs.kernel_owned hxk)) hx⟩

/-- The length of a string is read first. -/
theorem strlen_bind {α : Type} {c len arg : ℕ} (view : HeapState → ℕ → UInt8) {f : ℕ → Heap.Kernel α}
    {Q : α → HeapState → Prop} (hstr : CString (view h) arg len) (hlen : len < 2 ^ 22)
    (hf : Spends room c (f len) h Q) :
    Spends room c ((fun h => (strlen (view h) arg (2 ^ 32) 0).map (·, h)) >>= f) h Q := by
  have hstrlen : strlen (view h) arg (2 ^ 32) 0 = some len := hstr.strlen (Nat.zero_le _) (by omega)
  have hread : Spends room 0 (fun h => (strlen (view h) arg (2 ^ 32) 0).map (·, h)) h
      fun n h' => n = len ∧ h' = h := by
    constructor
    · intro _
      rw [hstrlen]
      rfl
    · intro n h' hcall
      rw [hstrlen] at hcall
      cases hcall
      exact ⟨⟨rfl, rfl⟩, le_rfl⟩
  rw [← Nat.zero_add c]
  refine hread.bind fun n h1 hq => ?_
  obtain ⟨rfl, rfl⟩ := hq
  exact hf

theorem copyArg_spends {T : Set ℕ} {argv : ℕ → ℕ} {args : ℕ → List UInt8} {n i : ℕ}
    (hs : Space kd h U d) (hT : T ⊆ U) (hargs : Arguments h.mem T argv args n) (hi : i < n) :
    Spends room ((args i).length + 27) (copyArg (argv i)) h
      (Duplicated kd h U d (args i ++ [0])) := by
  have hshort := hargs.short i hi
  refine strlen_bind (fun h => h.mem) (hargs.cString hi) hshort ?_
  refine duplicate_spends (fun m => slice m (argv i) ((args i).length + 1)) hs (by simp)
    (by omega) (by omega) fun m hm => ?_
  rw [slice_congr fun k hk => hm _ (.inl (hT (hargs.inside i hi k (by omega)))), hargs.string i hi]

/-- The blocks at `ptrs` hold copies of the arguments: `U` was the memory in use
    before, `U'` is in use now. -/
structure Copies (m : ℕ → UInt8) (U U' : Set ℕ) (args : ℕ → List UInt8) (ptrs : List ℕ) : Prop where
  string : ∀ i < ptrs.length,
    slice m (ptrs.getD i 0) ((args i).length + 1) = args i ++ [0]
  bound : ∀ p ∈ ptrs, p < 2 ^ 32
  inside : ∀ i < ptrs.length, ∀ k ≤ (args i).length,
    ptrs.getD i 0 + k ∈ U' ∧ ptrs.getD i 0 + k ∉ U ∧ ptrs.getD i 0 + k < 2 ^ 32

theorem Copies.congr {m m' : ℕ → UInt8} {U₁ U₂ V₁ V₂ : Set ℕ} {args : ℕ → List UInt8}
    {ptrs : List ℕ} (hc : Copies m U₁ U₂ args ptrs) (hV₁ : V₁ ⊆ U₁) (hV₂ : U₂ ⊆ V₂)
    (hm : ∀ x ∈ U₂, x ∉ U₁ → m' x = m x) : Copies m' V₁ V₂ args ptrs := by
  refine ⟨fun i hi => ?_, hc.bound, fun i hi k hk => ?_⟩
  · rw [← hc.string i hi]
    refine slice_congr fun k hk => ?_
    obtain ⟨hin, hout, -⟩ := hc.inside i hi k (by omega)
    exact hm _ hin hout
  · obtain ⟨hin, hout, hlt⟩ := hc.inside i hi k hk
    exact ⟨hV₂ hin, fun hx => hout (hV₁ hx), hlt⟩

theorem Copies.snoc {m : ℕ → UInt8} {U U' : Set ℕ} {args : ℕ → List UInt8} {ptrs : List ℕ} {p : ℕ}
    (hc : Copies m U U' args ptrs)
    (hp : slice m p ((args ptrs.length).length + 1) = args ptrs.length ++ [0])
    (hin : ∀ k ≤ (args ptrs.length).length, p + k ∈ U' ∧ p + k ∉ U ∧ p + k < 2 ^ 32) :
    Copies m U U' args (ptrs ++ [p]) := by
  have hget : ∀ i < ptrs.length, (ptrs ++ [p]).getD i 0 = ptrs.getD i 0 := fun i hi =>
    List.getD_append _ _ _ _ hi
  have hlast : (ptrs ++ [p]).getD ptrs.length 0 = p := by simp
  refine ⟨fun i hi => ?_, fun q hq => ?_, fun i hi => ?_⟩
  · rw [List.length_append, List.length_singleton] at hi
    obtain hlt | rfl := Nat.lt_succ_iff_lt_or_eq.mp hi
    · rw [hget i hlt]
      exact hc.string i hlt
    · rw [hlast]
      exact hp
  · obtain hq | hq := List.mem_append.mp hq
    · exact hc.bound q hq
    · obtain rfl := List.mem_singleton.mp hq
      exact (hin 0 (Nat.zero_le _)).2.2
  · rw [List.length_append, List.length_singleton] at hi
    obtain hlt | rfl := Nat.lt_succ_iff_lt_or_eq.mp hi
    · rw [hget i hlt]
      exact hc.inside i hlt
    · rw [hlast]
      exact hin

theorem pushArgs_spends {lo hi sp n : ℕ} {T : Set ℕ} {argv : ℕ → ℕ} {args : ℕ → List UInt8}
    {top : List ℕ} (hs : Space kd h U d) (hst : StackIn kd U lo hi) (hT : T ⊆ U)
    (hTst : ∀ x ∈ T, x ∉ Set.Ico lo hi) (hargs : Arguments h.mem T argv args n)
    (hlo : lo + 4 * n ≤ sp) (hhi : sp + 4 * top.length ≤ hi) (htop : WordsAt 4 h.mem sp top) :
    Spends room (∑ i ∈ Finset.range n, ((args i).length + 27)) (pushArgs argv n sp) h fun sp' h' =>
      sp' = sp - 4 * n ∧ ∃ U' ptrs, U ⊆ U' ∧ Space kd h' U' d ∧ ptrs.length = n ∧
        WordsAt 4 h'.mem sp' (ptrs ++ top) ∧ Copies h'.mem U U' args ptrs ∧
        ∀ x ∈ U, x ∉ Set.Ico (sp - 4 * n) sp → h'.mem x = h.mem x := by
  induction n generalizing h sp U top with
  | zero =>
    refine Spends.pure ⟨rfl, U, [], subset_rfl, hs, rfl, htop, ⟨?_, ?_, ?_⟩, fun _ _ _ => rfl⟩
    · exact fun i hi => absurd hi (Nat.not_lt_zero i)
    · exact fun p hp => (by cases hp)
    · exact fun i hi => absurd hi (Nat.not_lt_zero i)
  | succ n ih =>
    rw [Finset.sum_range_succ, Nat.add_comm]
    refine (copyArg_spends hs hT hargs (Nat.lt_succ_self n)).bind fun p h1 hdup => setMem_bind ?_
    have hs1 := hdup.space
    have hlen : (args n ++ [0]).length = (args n).length + 1 := by simp
    have hst1 : StackIn kd (U ∪ Set.Ico p (p + (args n ++ [0]).length)) lo hi :=
      ⟨hst.owned.trans Set.subset_union_left, hst.apart⟩
    have hbelow : ∀ x ∈ U, x ∉ Set.Ico lo sp → storeWord 4 h1.mem (sp - 4) p x = h.mem x :=
      fun x hx hxs => by
        rw [Set.mem_Ico] at hxs
        rw [storeWord_of_outside _ _ (by omega), hdup.keep x (.inl hx)]
    have hargs1 : Arguments (storeWord 4 h1.mem (sp - 4) p) T argv args n :=
      (hargs.mono (Nat.le_succ n)).congr fun x hx => hbelow x (hT hx) fun hxs => hTst x hx
        ⟨hxs.1, hxs.2.trans_le (by omega)⟩
    have htop1 : WordsAt 4 (storeWord 4 h1.mem (sp - 4) p) (sp - 4) (p :: top) := by
      refine WordsAt.push (htop.congr fun x hx hx' => ?_) (by omega) p
      exact hdup.keep x (.inl (hst.owned (Set.mem_Ico.mpr (by omega))))
    refine (ih (hst1.push hs1 (w := p) (by omega) (by omega)) hst1 (hT.trans Set.subset_union_left)
      hargs1 (by omega) (by rw [List.length_cons]; omega) htop1).imp fun sp' h' hq => ?_
    obtain ⟨hsp, U', ptrs, hU', hs', hptrs, hwords, hcop, hkeep⟩ := hq
    have hUU' : U ⊆ U' := Set.subset_union_left.trans hU'
    -- the new block is no part of the stack, so it keeps its bytes
    have hblock : ∀ x ∈ Set.Ico p (p + (args n ++ [0]).length), h'.mem x = h1.mem x := by
      intro x hx
      have hxs : x ∉ Set.Ico lo hi := fun hxs => hdup.fresh x (.inl (hst.owned hxs)) hx
      rw [Set.mem_Ico] at hxs
      rw [hkeep x (.inr hx) (by rw [Set.mem_Ico]; omega)]
      exact storeWord_of_outside _ _ (by omega)
    refine ⟨by rw [hsp]; omega, U', ptrs ++ [p], hUU', hs', by simp [hptrs], ?_, ?_,
      fun x hx hxst => ?_⟩
    · rwa [List.append_assoc]
    · refine Copies.snoc (hcop.congr Set.subset_union_left subset_rfl fun _ _ _ => rfl) ?_ ?_
      · rw [hptrs, ← hlen, slice_congr fun k hk => hblock _ (Set.mem_Ico.mpr (by omega)), hdup.bytes]
      · rw [hptrs]
        intro k hk
        have hmem : p + k ∈ Set.Ico p (p + (args n ++ [0]).length) := Set.mem_Ico.mpr (by omega)
        have hbound := hdup.bound
        exact ⟨hU' (.inr hmem), fun hx => hdup.fresh _ (.inl hx) hmem, by omega⟩
    · rw [Set.mem_Ico] at hxst
      rw [hkeep x (.inl hx) (by rw [Set.mem_Ico]; omega)]
      dsimp only
      rw [storeWord_of_outside _ _ (by omega), hdup.keep x (.inl hx)]

/-- The words of the initial frame, from the stack pointer on: what `irq.asm` pops
    and `iret` consumes, then what the program finds. -/
def frameWords (entry : ℕ) (ptrs : List ℕ) : List ℕ :=
  List.replicate 9 0 ++ [entry, gdtCodeSeg, 0x202, ptrs.length] ++ ptrs ++ [0, 0]

theorem length_frameWords (entry : ℕ) (ptrs : List ℕ) :
    (frameWords entry ptrs).length = ptrs.length + 15 := by
  simp only [frameWords, List.length_append, List.length_replicate, List.length_cons, List.length_nil]
  omega

/-- The initial frame takes the last 15 words and one for each argument. -/
theorem initialFrame_spends {stack entry n : ℕ} {T : Set ℕ} {argv : ℕ → ℕ} {args : ℕ → List UInt8}
    (hs : Space kd h U d) (hst : StackIn kd U stack (stack + 65536)) (hT : T ⊆ U)
    (hTst : ∀ x ∈ T, x ∉ Set.Ico stack (stack + 65536)) (hargs : Arguments h.mem T argv args n)
    (hn : n ≤ 16) :
    Spends room (∑ i ∈ Finset.range n, ((args i).length + 27)) (initialFrame stack entry n argv) h
      fun sp h' => sp = stack + 65536 - 4 * (n + 15) ∧ ∃ U' ptrs, U ⊆ U' ∧ Space kd h' U' d ∧
        ptrs.length = n ∧ WordsAt 4 h'.mem sp (frameWords entry ptrs) ∧
        Copies h'.mem U U' args ptrs ∧
        ∀ x ∈ U, x ∉ Set.Ico sp (stack + 65536) → h'.mem x = h.mem x := by
  rw [← Nat.zero_add (∑ i ∈ Finset.range n, ((args i).length + 27))]
  refine Spends.bind (x := pushWords (stack + taskStackSize) [0, 0]) (pushWords_spends hs hst
    (by simp only [List.length_cons, List.length_nil, taskStackSize]; omega)
    (by simp only [taskStackSize]; omega) (.nil _ _ _)) fun sp1 h1 hq => ?_
  obtain ⟨rfl, hs1, hwords1, hkeep1⟩ := hq
  simp only [List.length_cons, List.length_nil, taskStackSize] at hwords1 hkeep1 ⊢
  have hsame : ∀ x ∈ T, h1.mem x = h.mem x := fun x hx => hkeep1 x fun hmem => by
    have hx' := hTst x hx
    rw [Set.mem_Ico] at hmem hx'
    omega
  refine (pushArgs_spends hs1 hst hT hTst (hargs.congr hsame) (by omega)
    (by simp only [List.length_append, List.length_reverse, List.length_cons, List.length_nil]; omega)
    hwords1).andThen fun sp2 h2 hq => ?_
  obtain ⟨rfl, U', ptrs, hU', hs2, hptrs, hwords2, hcop, hkeep2⟩ := hq
  have hst2 : StackIn kd U' stack (stack + 65536) := ⟨hst.owned.trans hU', hst.apart⟩
  refine (pushWords_spends hs2 hst2 (by simp; omega) (by omega) hwords2).imp fun sp3 h3 hq => ?_
  obtain ⟨rfl, hs3, hwords3, hkeep3⟩ := hq
  simp only [List.length_append, List.length_cons, List.length_nil, List.length_replicate] at *
  refine ⟨by omega, U', ptrs, hU', hs3, hptrs, ?_, ?_, fun x hx hxst => ?_⟩
  · have hframe : frameWords entry ptrs = ([n, 0x202, gdtCodeSeg, entry] ++ List.replicate 9 0).reverse ++
        (ptrs ++ ([0, 0].reverse ++ [])) := by
      rw [frameWords, hptrs]
      simp
    rw [hframe]
    exact hwords3
  · refine hcop.congr subset_rfl subset_rfl fun x hx hxU => hkeep3 x fun hmem => hxU (hst.owned ?_)
    rw [Set.mem_Ico] at hmem ⊢
    omega
  · rw [Set.mem_Ico] at hxst
    rw [hkeep3 x (by rw [Set.mem_Ico]; omega), hkeep2 x hx (by rw [Set.mem_Ico]; omega),
      hkeep1 x (by rw [Set.mem_Ico]; omega)]

/-! ## The new process -/

/-- The process `t` is ready to start: the directory `d` shows the image of
    `segments` in the pages `P`, with the contents they had in the memory `m₀`, and
    the stack with the initial frame. `U` was the memory in use before, `U'` is in
    use now. -/
structure Ready (kd : ℕ) (m₀ : ℕ → UInt8) (U : Set ℕ) (segments : List Segment) (entry n : ℕ)
    (args : ℕ → List UInt8) (t : UserTask) (P : ℕ → ℕ) (d : Directory) (U' : Set ℕ) (ptrs : List ℕ)
    (h : HeapState) : Prop where
  span : (t.imageBase, t.imageEnd) = imageSpan segments
  nonempty : t.imageBase < t.imageEnd
  stack_bound : t.stackBase + 65536 + 2 ^ 23 ≤ 2 ^ 32
  pd : d.pd = t.cr3
  space : Space kd h U' d
  owned : U ∪ Set.Ico t.stackBase (t.stackBase + 65536) ∪ pagesBelow P (pageCount segments) ⊆ U'
  pte : d.pte = stackPte (imagePte t.imageBase P (pageCount segments)) (pageOf t.stackBase)
    (t.stackBase + 65536)
  frames : Frames P (pageCount segments)
  contents : ∀ a, t.imageBase ≤ a → a < t.imageEnd →
    imageByte P t.imageBase h.mem a = overlay m₀ a 0 segments
  esp : t.esp = t.stackBase + 65536 - 4 * (n + 15)
  argc : ptrs.length = n
  words : WordsAt 4 h.mem t.esp (frameWords entry ptrs)
  copies : Copies h.mem U U' args ptrs

/-- What holds of a task made by `create_user_task_from_segments` in the heap
    `h₀`. -/
structure Created (kd : ℕ) (h₀ : HeapState) (U : Set ℕ) (segments : List Segment) (entry n : ℕ)
    (args : ℕ → List UInt8) (t : UserTask) (P : ℕ → ℕ) (d : Directory) (U' : Set ℕ) (ptrs : List ℕ)
    (h : HeapState) : Prop extends Ready kd h₀.mem U segments entry n args t P d U' ptrs h where
  stack : ∃ h1 h2, kmalloc tcbSize h₀ = some (t.tcb, h1) ∧
    kmalloc taskStackSize h1 = some (t.stackBase, h2)
  stack_fresh : ∀ x ∈ Set.Ico t.stackBase (t.stackBase + 65536), x ∉ U
  pages_fresh : ∀ x ∈ pagesBelow P (pageCount segments),
    x ∉ U ∪ Set.Ico t.stackBase (t.stackBase + 65536)
  stack_zero : ∀ x ∈ Set.Ico t.stackBase (t.stackBase + 65536 - 124), h.mem x = 0
  keep : ∀ x ∈ U, h.mem x = h₀.mem x

/-- What `create_user_task_from_segments` is called with: `U` is the memory in
    use, with the kernel directory, the contents of the segments and the `n`
    arguments that are copied in it. -/
structure CreateInput (kd : ℕ) (h : HeapState) (U : Set ℕ) (segments : List Segment)
    (argv : ℕ → ℕ) (args : ℕ → List UInt8) (n : ℕ) : Prop where
  owned : Owned h U
  kernel : KernelDirectory h.mem kd
  kernel_owned : pageSet kd ⊆ U
  loadable : Loadable U segments
  args : Arguments h.mem U argv args n

/-- The image is loaded and the stack mapped: `V` was the memory in use before. -/
theorem ImageReady.mapStack_spends {segments : List Segment} {P : ℕ → ℕ} {W : Set ℕ} {stack : ℕ}
    (himg : ImageReady kd V segments h₀ P d W h) (hbound : stack + 65536 + 2 ^ 23 ≤ 2 ^ 32) :
    Spends room (17 * 8218) (mapStack d.pd (stack &&& 0xFFFFF000) (stack + taskStackSize)) h
      fun _ h' => ∃ d', d'.pd = d.pd ∧ Space kd h' W d' ∧
        d'.pte = stackPte (imagePte (imageSpan segments).1 P (pageCount segments)) (pageOf stack)
          (stack + 65536) ∧ ∀ x ∈ W, h'.mem x = h.mem x := by
  have hmask : stack &&& 0xFFFFF000 = pageOf stack := and_frame (by omega)
  have hnear : stack < pageOf stack + 4096 := by
    simp only [pageOf]
    omega
  rw [hmask, ← himg.pte]
  exact Process.mapStack_spends himg.space (n := 17) (pageOf_mod stack)
    (by simp only [taskStackSize]; omega) (by simp only [taskStackSize]; omega)

/-- The room that is needed for a process of these segments and arguments. -/
def createCost (segments : List Segment) (args : ℕ → List UInt8) (n : ℕ) : ℕ :=
  126 + (65562 + (8218 + (4 * pageCount segments + 26 + pageCount segments * (8218 + 8218) +
    (17 * 8218 + ∑ i ∈ Finset.range n, ((args i).length + 27)))))

theorem createUserTask_created {segments : List Segment} {argc : ℤ} {argv : ℕ → ℕ}
    {args : ℕ → List UInt8}
    (hin : CreateInput kd h U segments argv args (min argc.toNat maxTaskArgs)) (entry : ℕ) :
    Spends room (createCost segments args (min argc.toNat maxTaskArgs))
      (createUserTaskFromSegments kd entry segments argc argv) h fun r h' =>
        (r = none → argc < 0 ∨ segments = [] ∨ (imageSpan segments).2 ≤ (imageSpan segments).1) ∧
        ∀ t ∈ r, ∃ P d U' ptrs,
          Created kd h U segments entry (min argc.toNat maxTaskArgs) args t P d U' ptrs h' := by
  unfold createUserTaskFromSegments
  by_cases hargs : argc < 0 ∨ segments = []
  · rw [if_pos hargs]
    refine (Spends.pure ⟨fun _ => ?_, fun t ht => by cases ht⟩).mono (Nat.zero_le _)
      fun _ _ hq => hq
    exact hargs.imp id .inl
  rw [if_neg hargs, createCost]
  have hargc : min argc.toNat maxTaskArgs ≤ 16 := min_le_right _ _
  generalize min argc.toNat maxTaskArgs = n at *
  refine (kmalloc_spends hin.owned (n := 100) (by norm_num) (by norm_num)).self.bind
    fun tcb h1 hq => ?_
  obtain ⟨hcall1, hg1⟩ := hq
  refine (kmalloc_spends hg1.owned (n := 65536) (by norm_num) (by norm_num)).self.bind
    fun stack h2 hq => ?_
  obtain ⟨hcall2, hg2⟩ := hq
  have ho2 := hg2.owned
  generalize hV : U ∪ Set.Ico tcb (tcb + 100) ∪ Set.Ico stack (stack + 65536) = V at ho2
  have hUV : U ⊆ V := hV ▸ fun x hx => .inl (.inl hx)
  have hstackV : Set.Ico stack (stack + 65536) ⊆ V := hV ▸ fun x hx => .inr hx
  have hstackU : ∀ x ∈ Set.Ico stack (stack + 65536), x ∉ U := fun x hx hxU => by
    have := hg2.fresh x (.inl hxU)
    rw [Set.mem_Ico] at hx
    omega
  have hU2 : ∀ x ∈ U, h2.mem x = h.mem x := fun x hx =>
    (hg2.keep x (.inl hx)).trans (hg1.keep x hx)
  have hkdV : pageSet kd ⊆ V := hin.kernel_owned.trans hUV
  refine (Space.create ho2 (hin.kernel.congr fun x hx => hU2 x (hin.kernel_owned hx)) hkdV).bind
    fun dir h3 hq => ?_
  obtain ⟨hs3, hkeep3⟩ := hq
  dsimp only
  by_cases hempty : (imageSpan segments).1 ≥ (imageSpan segments).2
  · rw [if_pos hempty]
    refine (Spends.pure ⟨fun _ => ?_, fun t ht => by cases ht⟩).mono (Nat.zero_le _)
      fun _ _ hq => hq
    exact .inr (.inr hempty)
  rw [if_neg hempty]
  have hlt : (imageSpan segments).1 < (imageSpan segments).2 := not_le.mp hempty
  refine (loadImage_spends hs3 rfl (hin.loadable.mono hUV) hlt).bind fun _ h4 hq => ?_
  obtain ⟨P, d4, W, hpd4, himg⟩ := hq
  have hpd4 : d4.pd = dir := hpd4
  have hbound := hg2.bound
  have hVW : V ⊆ W := fun x hx => himg.owned (.inl hx)
  rw [← hpd4]
  refine (himg.mapStack_spends hbound).bind fun _ h5 hq => ?_
  obtain ⟨d5, hpd5, hs5, hpte5, hkeep5⟩ := hq
  have hst : StackIn kd W stack (stack + 65536) :=
    ⟨hstackV.trans hVW, fun x hx hxk => hstackU x hx (hin.kernel_owned hxk)⟩
  have hV5 : ∀ x ∈ V, h5.mem x = h2.mem x := fun x hx =>
    (hkeep5 x (hVW hx)).trans ((himg.keep x hx).trans (hkeep3 x hx))
  have hU5 : ∀ x ∈ U, h5.mem x = h.mem x := fun x hx => (hV5 x (hUV hx)).trans (hU2 x hx)
  refine (initialFrame_spends hs5 hst (hUV.trans hVW) (fun x hx hxs => hstackU x hxs hx)
    (hin.args.congr hU5) hargc).andThen fun sp h6 hq => Spends.pure ?_
  obtain ⟨hsp, U', ptrs, hU', hs6, hptrs, hwords, hcop, hkeep6⟩ := hq
  refine ⟨fun heq => (by cases heq), fun t ht => ?_⟩
  obtain rfl := Option.mem_some_iff.mp ht
  -- the pages of the image are not in the stack, so the frame leaves them alone
  have hpage : ∀ x ∈ pagesBelow P (pageCount segments), h6.mem x = h4.mem x := fun x hx => by
    refine (hkeep6 x (himg.owned (.inr hx)) fun hxs => ?_).trans (hkeep5 x (himg.owned (.inr hx)))
    refine himg.fresh x hx (hstackV ?_)
    rw [Set.mem_Ico] at hxs ⊢
    omega
  obtain ⟨-, hcount, -, -⟩ := span_pages hin.loadable.vaddr_lt hlt
  refine ⟨P, d5, U', ptrs, ⟨⟨rfl, hlt, hbound, hpd5, hs6, ?_, hpte5, himg.frames, ?_, hsp, hptrs, hwords,
    hcop.congr (hUV.trans hVW) subset_rfl fun _ _ _ => rfl⟩, ⟨h1, h2, hcall1, hcall2⟩, hstackU, ?_,
    ?_, ?_⟩⟩
  · rintro x ((hx | hx) | hx)
    · exact hU' (hVW (hUV hx))
    · exact hU' (hVW (hstackV hx))
    · exact hU' (himg.owned (.inr hx))
  · intro a ha ha'
    simp only at ha ha'
    rw [imageByte, hpage _ (imageByte_mem himg.frames ha (by omega))]
    refine (himg.contents a ha ha').trans (overlay_congr (fun s hs k hk => ?_) a 0)
    have hdata := hin.loadable.data s hs k hk
    rw [hkeep3 _ (hUV hdata), hU2 _ hdata]
  · rintro x hx (hxU | hxs)
    · exact himg.fresh x hx (hUV hxU)
    · exact himg.fresh x hx (hstackV hxs)
  · intro x hx
    simp only [Set.mem_Ico] at hx
    obtain ⟨o, rfl⟩ : ∃ o, x = stack + o := ⟨x - stack, by omega⟩
    have hxs : stack + o ∈ Set.Ico stack (stack + 65536) := Set.mem_Ico.mpr (by omega)
    rw [hkeep6 _ (hVW (hstackV hxs)) (by rw [Set.mem_Ico]; omega), hV5 _ (hstackV hxs)]
    exact hg2.zero o (by omega)
  · intro x hx
    rw [hkeep6 x (hVW (hUV hx)) fun hxs => hstackU x ⟨by have := hxs.1; omega, hxs.2⟩ hx, hU5 x hx]

/-! ## What the process sees -/

/-- The pages that are mapped for the stack: the loop starts at the page of the
    first byte. -/
def UserTask.StackPage (t : UserTask) (a : ℕ) : Prop :=
  pageOf t.stackBase ≤ a ∧ pageOf a < t.stackBase + taskStackSize

section

variable {m₀ : ℕ → UInt8} {segments : List Segment} {entry n a : ℕ} {args : ℕ → List UInt8}
  {t : UserTask} {P : ℕ → ℕ} {U' : Set ℕ} {ptrs : List ℕ}

/-- A page of the stack is mapped to itself, also where the image lies. -/
theorem stackPte_stack {pte : ℕ → ℕ} (ha : t.StackPage a) :
    stackPte pte (pageOf t.stackBase) (t.stackBase + 65536) (a / 4096) = pageOf a + 7 := by
  obtain ⟨hlo, hhi⟩ := ha
  rw [stackPte, if_pos]
  · rfl
  · simp only [pageOf, taskStackSize] at *
    omega

theorem stackPte_other {pte : ℕ → ℕ} (ha : ¬t.StackPage a) :
    stackPte pte (pageOf t.stackBase) (t.stackBase + 65536) (a / 4096) = pte (a / 4096) := by
  rw [stackPte, if_neg]
  intro hin
  refine ha ⟨?_, ?_⟩
  · simp only [pageOf] at *
    omega
  · simp only [pageOf, taskStackSize] at *
    omega

/-- The byte of the image that the directory shows, outside of the pages of the
    stack. -/
theorem readVirtual_image {m : ℕ → UInt8} {n base : ℕ} (hd : Describes m d)
    (hpte : d.pte = stackPte (imagePte base P n) (pageOf t.stackBase) (t.stackBase + 65536))
    (hP : Frames P n) (hbase : base % 4096 = 0) (htop : base + 4096 * n < 2 ^ 32) (hlo : base ≤ a)
    (hhi : a < base + 4096 * n) (hst : ¬t.StackPage a) :
    readVirtual m d.pd a = some (imageByte P base m a) := by
  have hidx : a / 4096 - base / 4096 = (a - base) / 4096 := by omega
  obtain ⟨hal, -⟩ := hP.aligned ((a - base) / 4096) (by omega)
  rw [hd.readVirtual (by omega) fun _ _ => rfl, hpte, stackPte_other hst, imagePte,
    if_pos (by omega), hidx]
  simp only [imageByte, pageOf, Option.some.injEq]
  congr 1
  omega

theorem translate_stackPage {m : ℕ → UInt8} {pte : ℕ → ℕ} (hd : Describes m d)
    (hpte : d.pte = stackPte pte (pageOf t.stackBase) (t.stackBase + 65536))
    (hbound : t.stackBase + 65536 + 2 ^ 23 ≤ 2 ^ 32) (ha : t.StackPage a) :
    translate m d.pd a = some a := by
  have hlt : a < 2 ^ 32 := by
    have hhi := ha.2
    simp only [pageOf, taskStackSize] at hhi
    omega
  rw [hd.translate hlt, hpte, stackPte_stack ha]
  simp only [pageOf, Option.some.injEq]
  omega

theorem Ready.pte_stack (hr : Ready kd m₀ U segments entry n args t P d U' ptrs h)
    (ha : t.StackPage a) : d.pte (a / 4096) = pageOf a + 7 := by
  rw [hr.pte, stackPte_stack ha]

/-- The span of the image in pages. -/
theorem Ready.span_pages (hr : Ready kd m₀ U segments entry n args t P d U' ptrs h)
    (hv : ∀ s ∈ segments, s.vaddr < 2 ^ 32) :
    t.imageBase % 4096 = 0 ∧ t.imageBase + 4096 * pageCount segments = t.imageEnd ∧
      t.imageEnd < 2 ^ 32 := by
  have hspan := hr.span
  have hlt : (imageSpan segments).1 < (imageSpan segments).2 := by
    rw [← hspan]
    exact hr.nonempty
  obtain ⟨hbase, hcount, htop, -⟩ := Process.span_pages hv hlt
  rw [← hspan] at hbase hcount htop
  exact ⟨hbase, hcount, htop⟩

/-- Outside of the image and of the pages of the stack, memory is mapped as in the
    kernel directory. -/
theorem Ready.pte_kernel (hr : Ready kd m₀ U segments entry n args t P d U' ptrs h)
    (hv : ∀ s ∈ segments, s.vaddr < 2 ^ 32) (hst : ¬t.StackPage a)
    (himg : a ∉ Set.Ico t.imageBase t.imageEnd) : d.pte (a / 4096) = a / 4096 * 4096 + 3 := by
  obtain ⟨hbase, hcount, hlt⟩ := hr.span_pages hv
  rw [Set.mem_Ico] at himg
  rw [hr.pte, stackPte_other hst, imagePte, if_neg (by omega)]

/-- The clone of a new task copies the pages of the image and at most 17 pages
    of the stack. -/
theorem Ready.userPages_le (hr : Ready kd m₀ U segments entry n args t P d U' ptrs h)
    (hv : ∀ s ∈ segments, s.vaddr < 2 ^ 32) :
    userPages h.mem t.cr3 ≤ 17 + pageCount segments := by
  obtain ⟨hbase, hcount, hlt⟩ := hr.span_pages hv
  have hcard := hr.space.desc.userPages_le
    (S := Finset.Ico (t.stackBase / 4096) (t.stackBase / 4096 + 17) ∪
      Finset.Ico (t.imageBase / 4096) (t.imageBase / 4096 + pageCount segments)) fun p _ hu => by
    rw [Finset.mem_union, Finset.mem_Ico, Finset.mem_Ico]
    by_contra hout
    have hst : ¬t.StackPage (p * 4096) := fun ⟨hlo, hhi⟩ => by
      simp only [pageOf, taskStackSize, Nat.reduceMul] at hlo hhi
      omega
    have hpte := hr.pte_kernel hv hst (by rw [Set.mem_Ico]; omega)
    rw [Nat.mul_div_cancel _ (by norm_num)] at hpte
    rw [hpte] at hu
    omega
  rw [hr.pd] at hcard
  simpa using hcard.trans (Finset.card_union_le _ _)

theorem Ready.read_image (hr : Ready kd m₀ U segments entry n args t P d U' ptrs h)
    (hv : ∀ s ∈ segments, s.vaddr < 2 ^ 32) (hlo : t.imageBase ≤ a) (hhi : a < t.imageEnd)
    (hst : ¬t.StackPage a) : readVirtual h.mem t.cr3 a = some (overlay m₀ a 0 segments) := by
  obtain ⟨hbase, hcount, htop⟩ := hr.span_pages hv
  rw [← hr.pd, readVirtual_image hr.space.desc hr.pte hr.frames hbase (by omega) hlo (by omega) hst,
    hr.contents a hlo hhi]

theorem Ready.translate_stack (hr : Ready kd m₀ U segments entry n args t P d U' ptrs h)
    (hst : t.StackPage a) : translate h.mem t.cr3 a = some a := by
  rw [← hr.pd]
  exact translate_stackPage hr.space.desc hr.pte hr.stack_bound hst

end

/-- For every list of segments that do not overlap: what the new directory shows
    of the image, outside of the pages of the stack. Those show the stack, which is
    mapped last. -/
theorem image_loading_correct {segments : List Segment} (entry : ℕ) {argc : ℤ} {argv : ℕ → ℕ}
    {args : ℕ → List UInt8}
    (hin : CreateInput kd h U segments argv args (min argc.toNat maxTaskArgs))
    (hok : ∀ s ∈ segments, s.Ok) (hdisj : DisjointSegments segments) (hargc : 0 ≤ argc)
    (hne : segments ≠ []) :
    (∀ r h', createUserTaskFromSegments kd entry segments argc argv h = some (r, h') →
      (r = none → ∀ a, ¬InSpan segments a) ∧
      ∀ t ∈ r,
        (∀ s ∈ segments, ∀ j < s.memsz, ¬t.StackPage (s.vaddr + j) →
          readVirtual h'.mem t.cr3 (s.vaddr + j) =
            some (if j < s.filesz then h.mem (s.data + j) else 0)) ∧
        (∀ a, InSpan segments a → (∀ s ∈ segments, ¬s.InMemory a) → ¬t.StackPage a →
          readVirtual h'.mem t.cr3 a = some 0) ∧
        (∀ a, t.StackPage a → translate h'.mem t.cr3 a = some a) ∧
        ∀ s ∈ segments, ∀ c ∈ chunks t.imageBase s.vaddr s.data s.filesz,
          c.pageIdx < (t.imageEnd - t.imageBase) / pageSize) ∧
    (createCost segments args (min argc.toNat maxTaskArgs) ≤ room h →
      (createUserTaskFromSegments kd entry segments argc argv h).isSome) := by
  have hspends := createUserTask_created hin entry
  have hspan := imageSpan_spec hne hok
  have hv := hin.loadable.vaddr_lt
  refine ⟨fun r h' hcall => ?_, hspends.returns⟩
  obtain ⟨⟨hnone, hsome⟩, -⟩ := hspends.post r h' hcall
  refine ⟨fun hr a ha => ?_, fun t ht => ?_⟩
  · obtain hneg | hempty | hempty := hnone hr
    · omega
    · exact hne hempty
    · rw [hspan.inSpan_iff] at ha
      omega
  obtain ⟨P, d, U', ptrs, hc⟩ := hsome t ht
  have hends : ∀ a, InSpan segments a ↔ t.imageBase ≤ a ∧ a < t.imageEnd := fun a => by
    rw [hspan.inSpan_iff, ← hc.span]
  have hinside : ∀ s ∈ segments, t.imageBase ≤ s.vaddr ∧ s.vaddr + s.memsz ≤ t.imageEnd :=
    fun s hs => by
      have := hspan.inside hs
      rwa [← hc.span] at this
  refine ⟨fun s hs j hj hst => ?_, fun a ha hother hst => ?_, fun a ha => hc.translate_stack ha,
    fun s hs => ?_⟩
  · obtain ⟨hlo, hhi⟩ := hinside s hs
    rw [hc.read_image hv (by omega) (by omega) hst]
    split_ifs with hfile
    · rw [overlay_of_mem hok hdisj hs ⟨by omega, by omega⟩, Nat.add_sub_cancel_left]
    · rw [overlay_of_none fun u hu hau => ?_]
      -- the byte is in this segment, so it is in no other
      have hmem := (hok u hu).inMemory hau
      have hmem' : s.InMemory (s.vaddr + j) := ⟨by omega, by omega⟩
      by_cases hus : u = s
      · subst hus
        obtain ⟨-, hlt⟩ := hau
        omega
      · exact hdisj.forall hu hs hus _ ⟨hmem, hmem'⟩
  · obtain ⟨hlo, hhi⟩ := (hends a).mp ha
    rw [hc.read_image hv hlo hhi hst, overlay_of_none fun s hs hfile =>
      hother s hs ((hok s hs).inMemory hfile)]
  · obtain ⟨hlo, hhi⟩ := hinside s hs
    obtain ⟨hbase, hcount, hlt⟩ := hc.span_pages hv
    have hle := (hok s hs).filesz_le
    have hpages : (t.imageEnd - t.imageBase) / pageSize = pageCount segments := by
      rw [pageCount, ← hc.span]
    rw [hpages]
    exact chunks_pageIdx_lt hbase hlo (by omega) (by omega)

/-! ## A small machine -/

/-- A machine with 128 MiB of memory, of which 32 MiB are handed out. A program of one
    byte lies at `0x7C00`. -/
def busyHeap : HeapState := ⟨fun x => if x = 0x7C00 then 1 else 0, 0x100000, 0x8000000, 0, 0x2000000⟩

/-- The machine after `paging_init`. -/
def pagedHeap : HeapState := ((pagingInit busyHeap).map Prod.snd).getD busyHeap

theorem busyHeap_owned : Owned busyHeap lowMemory := by
  refine ⟨by decide, by decide, [], ⟨⟨rfl, nofun⟩, .empty _ _, by decide, by decide,
    .inr (by decide), nofun⟩, fun x hx => ⟨nofun, .inl (lt_trans hx (by decide))⟩⟩

theorem pagedHeap_eq : pagingInit busyHeap = some (0x2001000, pagedHeap) := rfl

theorem pagedHeap_byte : pagedHeap.mem 0x7C00 = 1 := by
  obtain ⟨⟨-, -, hkeep⟩, -⟩ := (pagingInit_spends busyHeap_owned).post _ _ pagedHeap_eq
  exact hkeep _ (by simp [lowMemory])

/-- The first task of the machine. -/
theorem pagedHeap_task {t : UserTask} {h1 h2 : HeapState}
    (htcb : kmalloc tcbSize pagedHeap = some (t.tcb, h1))
    (hstack : kmalloc taskStackSize h1 = some (t.stackBase, h2)) :
    t.tcb = 0x200201C ∧ t.stackBase = 0x2002094 := by
  have hrun : (kmalloc tcbSize pagedHeap).map Prod.fst = some 0x200201C := rfl
  have hrun' : (kmalloc tcbSize pagedHeap >>= fun p => kmalloc taskStackSize p.2).map Prod.fst =
      some 0x2002094 := rfl
  rw [htcb] at hrun hrun'
  exact ⟨by simpa using hrun, by simpa [hstack] using hrun'⟩

/-- An image of one page at `base`, of segments with at most the one byte as contents. -/
structure SmallImage (segments : List Segment) (base : ℕ) : Prop where
  ok : ∀ s ∈ segments, s.Ok
  span : imageSpan segments = (base, base + 4096)
  contents : ∀ s ∈ segments, s.filesz ≤ 1 ∧ s.data = 0x7C00

section

variable {segments : List Segment} {base : ℕ}

theorem SmallImage.ne_nil (hs : SmallImage segments base) : segments ≠ [] := by
  rintro rfl
  have hspan := hs.span
  rw [show imageSpan [] = (0xFFFFFFFF, 0) from rfl, Prod.mk.injEq] at hspan
  omega

theorem SmallImage.pageCount_eq (hs : SmallImage segments base) : pageCount segments = 1 := by
  rw [pageCount, hs.span]
  simp

theorem SmallImage.loadable (hs : SmallImage segments base) (hU : 0x7C00 ∈ U) :
    Loadable U segments := by
  refine .of_ok hs.ne_nil hs.ok fun s hmem k hk => ?_
  obtain ⟨hbyte, hdata⟩ := hs.contents s hmem
  obtain rfl : k = 0 := by omega
  rwa [hdata]

theorem pagedHeap_input (hs : SmallImage segments base) :
    CreateInput 0x2001000 pagedHeap (lowMemory ∪ pageSet 0x2001000) segments (fun _ => 0)
      (fun _ => []) (min (0 : ℤ).toNat maxTaskArgs) := by
  obtain ⟨⟨ho, hk, -⟩, -⟩ := (pagingInit_spends busyHeap_owned).post _ _ pagedHeap_eq
  refine ⟨ho, hk, Set.subset_union_right, hs.loadable (.inl (by simp [lowMemory])), ⟨?_, ?_, ?_, ?_⟩⟩
  all_goals exact fun i hi => absurd hi (Nat.not_lt_zero i)

theorem pagedHeap_spawns (hs : SmallImage segments base) (entry : ℕ) : ∃ t P d U' ptrs h',
    createUserTaskFromSegments 0x2001000 entry segments 0 (fun _ => 0) pagedHeap =
      some (some t, h') ∧
    t.tcb = 0x200201C ∧ t.stackBase = 0x2002094 ∧ 0x5E00000 ≤ room h' ∧
    Created 0x2001000 pagedHeap (lowMemory ∪ pageSet 0x2001000) segments entry 0 (fun _ => []) t P d
      U' ptrs h' := by
  have hspends := createUserTask_created (pagedHeap_input hs) entry
  have hcost : createCost segments (fun _ => []) (min (0 : ℤ).toNat maxTaskArgs) ≤ 0x100000 := by
    rw [createCost, hs.pageCount_eq]
    simp
  have hroom : room pagedHeap = 0x5FFDFF4 := rfl
  obtain ⟨r, h', hcall, ⟨hnone, hsome⟩, hspent⟩ := hspends.result (by omega)
  cases r with
  | none =>
    obtain hneg | hempty | hempty := hnone rfl
    · omega
    · exact absurd hempty hs.ne_nil
    · rw [hs.span] at hempty
      omega
  | some t =>
    obtain ⟨P, d, U', ptrs, hc⟩ := hsome t rfl
    obtain ⟨h1, h2, htcb, hstack⟩ := hc.stack
    obtain ⟨htcb, hstack⟩ := pagedHeap_task htcb hstack
    exact ⟨t, P, d, U', ptrs, h', hcall, htcb, hstack, by omega, hc⟩

end

/-- A program of one byte and one byte of zeros, linked at `0x40000000`. -/
theorem program_small : SmallImage [⟨0x40000000, 1, 2, 0x7C00⟩] 0x40000000 :=
  ⟨by simpa using ⟨by decide, by decide, by decide⟩, rfl, by simp⟩

/-- Two segments of one page, the second in front of the first. -/
theorem image_loading_correct_program : ∃ t h',
    createUserTaskFromSegments 0x2001000 0x40000804 [⟨0x40000800, 1, 8, 0x7C00⟩,
      ⟨0x40000000, 1, 2, 0x7C00⟩] 0 (fun _ => 0) pagedHeap = some (some t, h') ∧
    readVirtual h'.mem t.cr3 0x40000000 = some 1 ∧ readVirtual h'.mem t.cr3 0x40000001 = some 0 ∧
    readVirtual h'.mem t.cr3 0x40000800 = some 1 ∧ readVirtual h'.mem t.cr3 0x40000FFF = some 0 := by
  have hsmall : SmallImage [⟨0x40000800, 1, 8, 0x7C00⟩, ⟨0x40000000, 1, 2, 0x7C00⟩] 0x40000000 :=
    ⟨by simpa using ⟨⟨by decide, by decide, by decide⟩, by decide, by decide, by decide⟩, rfl,
      by simp⟩
  have hdisj : DisjointSegments [⟨0x40000800, 1, 8, 0x7C00⟩, ⟨0x40000000, 1, 2, 0x7C00⟩] := by
    refine List.pairwise_pair.mpr fun a ⟨hfirst, hsecond⟩ => ?_
    simp only [Segment.InMemory] at hfirst hsecond
    omega
  obtain ⟨t, P, d, U', ptrs, h', hcall, -, hstack, -, hc⟩ := pagedHeap_spawns hsmall 0x40000804
  have hother : ∀ a, 0x40000000 ≤ a → ¬t.StackPage a := fun a ha hst => by
    have := hst.2
    simp only [hstack, pageOf, taskStackSize] at this
    omega
  obtain ⟨hpost, -⟩ := image_loading_correct 0x40000804 (pagedHeap_input hsmall)
    hsmall.ok hdisj le_rfl hsmall.ne_nil
  obtain ⟨-, hsome⟩ := hpost _ _ hcall
  obtain ⟨hseg, hgap, -, -⟩ := hsome t rfl
  have hfile := hseg ⟨0x40000000, 1, 2, 0x7C00⟩ (by simp) 0 (by decide) (hother _ (by decide))
  have hzero := hseg ⟨0x40000000, 1, 2, 0x7C00⟩ (by simp) 1 (by decide) (hother _ (by decide))
  have hsecond := hseg ⟨0x40000800, 1, 8, 0x7C00⟩ (by simp) 0 (by decide) (hother _ (by decide))
  simp only [Nat.add_zero, if_pos Nat.one_pos, pagedHeap_byte] at hfile hsecond
  refine ⟨t, h', hcall, hfile, hzero, hsecond, hgap _ ?_ ?_ (hother _ (by decide))⟩
  · rw [(imageSpan_spec hsmall.ne_nil hsmall.ok).inSpan_iff, hsmall.span]
    decide
  · simp [Segment.InMemory]

/-- A segment linked at an address at which its task gets its stack. The directory
    shows the stack there, not the segment. -/
theorem stack_hides_segment : ∃ t h',
    createUserTaskFromSegments 0x2001000 0x2003000 [⟨0x2003000, 1, 1, 0x7C00⟩] 0 (fun _ => 0)
      pagedHeap = some (some t, h') ∧
    pagedHeap.mem 0x7C00 = 1 ∧ readVirtual h'.mem t.cr3 0x2003000 = some 0 := by
  have hsmall : SmallImage [⟨0x2003000, 1, 1, 0x7C00⟩] 0x2003000 :=
    ⟨by simpa using ⟨by decide, by decide, by decide⟩, rfl, by simp⟩
  obtain ⟨t, P, d, U', ptrs, h', hcall, -, hstack, -, hc⟩ := pagedHeap_spawns hsmall 0x2003000
  have hst : t.StackPage 0x2003000 := by
    rw [UserTask.StackPage, hstack]
    decide
  refine ⟨t, h', hcall, pagedHeap_byte, ?_⟩
  rw [readVirtual, hc.translate_stack hst, Option.map_some, hc.stack_zero]
  rw [hstack]
  simp only [Set.mem_Ico]
  decide

end Mboot.Process
