import Mathlib

/-!
# Blocks in a region

The geometry of the heap, without the memory that stores it. A block is a
header of 12 bytes and its payload. `Layout lo hi free live` says that the
blocks lie in `[lo, hi)` and do not overlap, and that the free ones are in
ascending order with a gap behind each of them.

The operations of the allocator on blocks keep the layout:

* `Layout.take`: a free block is handed out, its tail split off.
* `Layout.extend`: a new block behind all others.
* `Layout.release`: a live block goes back to the free ones and is joined with
  the neighbours it touches.
-/

namespace Mboot.Heap

/-- A block by the address of its header and the size of its payload. -/
structure Block where
  addr : ℕ
  size : ℕ
  deriving DecidableEq

/-- The address behind the block. -/
def Block.stop (b : Block) : ℕ := b.addr + 12 + b.size

/-- The two blocks do not overlap. -/
def Block.Disj (a b : Block) : Prop := a.stop ≤ b.addr ∨ b.stop ≤ a.addr

theorem Block.Disj.symm {a b : Block} (h : a.Disj b) : b.Disj a := h.elim .inr .inl

instance : Std.Symm Block.Disj := ⟨fun _ _ => Block.Disj.symm⟩

theorem Block.addr_lt_stop (b : Block) : b.addr + 12 ≤ b.stop := by
  unfold Block.stop
  omega

/-- The union of two blocks that touch. -/
def Block.join (a b : Block) : Block := ⟨a.addr, a.size + 12 + b.size⟩

theorem Block.join_stop {a b : Block} (h : a.stop = b.addr) : (a.join b).stop = b.stop := by
  simp only [Block.stop, Block.join] at *
  omega

/-- Nothing fits between two blocks that touch. -/
theorem Block.Disj.join {a b c : Block} (h : a.stop = b.addr) (ha : a.Disj c)
    (hb : b.Disj c) : (a.join b).Disj c := by
  have hc := c.addr_lt_stop
  have hstop := Block.join_stop h
  simp only [Block.Disj] at ha hb ⊢
  have haddr : (a.join b).addr = a.addr := rfl
  omega

/-- The blocks lie in the region and do not overlap; the free ones ascend. -/
structure Arranged (lo hi : ℕ) (free live : List Block) : Prop where
  inside : ∀ b ∈ free ++ live, lo ≤ b.addr ∧ b.stop ≤ hi
  ordered : free.Pairwise fun a b => a.stop ≤ b.addr
  pairs : live.Pairwise Block.Disj
  cross : ∀ a ∈ free, ∀ b ∈ live, a.Disj b
  nonnull : ∀ b ∈ free, b.addr ≠ 0

/-- No two free blocks touch. -/
structure Layout (lo hi : ℕ) (free live : List Block) : Prop
    extends Arranged lo hi free live where
  gaps : free.Pairwise fun a b => a.stop ≠ b.addr

section

variable {lo hi : ℕ} {free live pre mid post : List Block} {a b : Block}

/-- A relation on the pairs of a list, with one element singled out. -/
theorem pairwise_middle {α : Type*} {R : α → α → Prop} {pre post : List α} {m : α} :
    (pre ++ m :: post).Pairwise R ↔
      (pre ++ post).Pairwise R ∧ (∀ a ∈ pre, R a m) ∧ ∀ c ∈ post, R m c := by
  simp only [List.pairwise_append, List.pairwise_cons, List.mem_cons, forall_eq_or_imp]
  constructor
  · rintro ⟨hpre, ⟨hm, hpost⟩, hcross⟩
    exact ⟨⟨hpre, hpost, fun a ha => (hcross a ha).2⟩, fun a ha => (hcross a ha).1, hm⟩
  · rintro ⟨⟨hpre, hpost, hcross⟩, hbefore, hafter⟩
    exact ⟨hpre, ⟨hafter, hpost⟩, fun a ha => ⟨hbefore a ha, hcross a ha⟩⟩

/-- The number of free blocks is bounded by the size of the region. -/
theorem Arranged.length_le (h : Arranged lo hi free live) (hle : lo ≤ hi) :
    free.length ≤ hi - lo := by
  have hin : ∀ b ∈ free, lo ≤ b.addr ∧ b.stop ≤ hi :=
    fun b hb => h.inside b (List.mem_append_left _ hb)
  have hord := h.ordered
  clear h
  induction free generalizing lo with
  | nil => simp
  | cons b free ih =>
    obtain ⟨hb, hrest⟩ := List.pairwise_cons.mp hord
    have hlo := hin b List.mem_cons_self
    have hstop := b.addr_lt_stop
    have : free.length ≤ hi - b.stop :=
      ih hlo.2 (fun c hc => ⟨hb c hc, (hin c (List.mem_cons_of_mem b hc)).2⟩) hrest
    rw [List.length_cons]
    omega

theorem Layout.empty (lo hi : ℕ) : Layout lo hi [] [] :=
  ⟨⟨by simp, .nil, .nil, by simp, by simp⟩, .nil⟩

/-- No free block ends where a free block starts. -/
theorem Layout.stop_ne (h : Layout lo hi free live) (ha : a ∈ free) (hb : b ∈ free) :
    a.stop ≠ b.addr := by
  have hpairs : free.Pairwise fun a b => a.stop ≠ b.addr ∧ b.stop ≠ a.addr := by
    refine (h.ordered.and h.gaps).imp fun {c d} hcd => ⟨hcd.2, ?_⟩
    have := c.addr_lt_stop
    have := d.addr_lt_stop
    have := hcd.1
    omega
  have hself : ∀ c ∈ free, c.stop ≠ c.addr ∧ c.stop ≠ c.addr := fun c _ => by
    have := c.addr_lt_stop
    omega
  have : Std.Symm fun a b : Block => a.stop ≠ b.addr ∧ b.stop ≠ a.addr := ⟨fun _ _ => And.symm⟩
  exact (List.Pairwise.forall_of_forall hself hpairs ha hb).1

/-! ## Handing out blocks -/

theorem Layout.mono {hi' : ℕ} (h : Layout lo hi free live) (hle : hi ≤ hi') :
    Layout lo hi' free live :=
  ⟨⟨fun b hb => ⟨(h.inside b hb).1, (h.inside b hb).2.trans hle⟩, h.ordered, h.pairs, h.cross,
    h.nonnull⟩, h.gaps⟩

/-- One more live block, apart from all others. -/
theorem Layout.grant (h : Layout lo hi free live) (hlo : lo ≤ a.addr) (hhi : a.stop ≤ hi)
    (hfree : ∀ c ∈ free, c.Disj a) (hlive : ∀ c ∈ live, a.Disj c) :
    Layout lo hi free (a :: live) := by
  refine ⟨⟨fun b hb => ?_, h.ordered, List.pairwise_cons.mpr ⟨hlive, h.pairs⟩,
    fun c hc b hb => ?_, h.nonnull⟩, h.gaps⟩
  · simp only [List.mem_append, List.mem_cons] at hb
    obtain hb | rfl | hb := hb
    · exact h.inside b (List.mem_append_left _ hb)
    · exact ⟨hlo, hhi⟩
    · exact h.inside b (List.mem_append_right _ hb)
  · obtain rfl | hb := List.mem_cons.mp hb
    · exact hfree c hc
    · exact h.cross c hc b hb

theorem Arranged.remove (h : Arranged lo hi (pre ++ b :: post) live) :
    Arranged lo hi (pre ++ post) live := by
  have hsub : (pre ++ post).Sublist (pre ++ b :: post) :=
    (List.sublist_cons_self b post).append_left pre
  exact ⟨fun c hc => h.inside c ((hsub.append_right live).subset hc), h.ordered.sublist hsub,
    h.pairs, fun c hc => h.cross c (hsub.subset hc), fun c hc => h.nonnull c (hsub.subset hc)⟩

theorem Layout.remove (h : Layout lo hi (pre ++ b :: post) live) :
    Layout lo hi (pre ++ post) live :=
  ⟨h.toArranged.remove, (pairwise_middle.mp h.gaps).1⟩

/-- One more free block, at its place in the order. -/
theorem Arranged.put (h : Arranged lo hi (pre ++ post) live) (hin : lo ≤ a.addr ∧ a.stop ≤ hi)
    (hpre : ∀ c ∈ pre, c.stop ≤ a.addr) (hpost : ∀ c ∈ post, a.stop ≤ c.addr)
    (hcross : ∀ d ∈ live, a.Disj d) (ha : a.addr ≠ 0) :
    Arranged lo hi (pre ++ a :: post) live := by
  have hmem : ∀ c ∈ pre ++ a :: post, c = a ∨ c ∈ pre ++ post := by
    intro c hc
    simp only [List.mem_append, List.mem_cons] at hc ⊢
    tauto
  refine ⟨fun c hc => ?_, pairwise_middle.mpr ⟨h.ordered, hpre, hpost⟩, h.pairs,
    fun c hc d hd => ?_, fun c hc => ?_⟩
  · obtain hc | hc := List.mem_append.mp hc
    · obtain rfl | hc := hmem c hc
      · exact hin
      · exact h.inside c (List.mem_append_left _ hc)
    · exact h.inside c (List.mem_append_right _ hc)
  · obtain rfl | hc := hmem c hc
    · exact hcross d hd
    · exact h.cross c hc d hd
  · obtain rfl | hc := hmem c hc
    · exact ha
    · exact h.nonnull c hc

/-- A free block gives up its front part. -/
theorem Arranged.shrink (h : Arranged lo hi (pre ++ b :: post) live) (hlt : b.addr < a.addr)
    (hstop : a.stop = b.stop) : Arranged lo hi (pre ++ a :: post) live := by
  have hb : b ∈ pre ++ b :: post := by simp
  have hbin := h.inside b (List.mem_append_left _ hb)
  obtain ⟨-, hbefore, hafter⟩ := pairwise_middle.mp h.ordered
  refine h.remove.put (by omega) (fun c hc => (hbefore c hc).trans hlt.le)
    (fun c hc => hstop ▸ hafter c hc) (fun d hd => ?_) (by omega)
  have := h.cross b hb d hd
  simp only [Block.Disj] at *
  omega

theorem Layout.shrink (h : Layout lo hi (pre ++ b :: post) live) (hlt : b.addr < a.addr)
    (hstop : a.stop = b.stop) : Layout lo hi (pre ++ a :: post) live := by
  obtain ⟨-, hbefore, -⟩ := pairwise_middle.mp h.ordered
  obtain ⟨hgaps, -, hgap⟩ := pairwise_middle.mp h.gaps
  refine ⟨h.toArranged.shrink hlt hstop, ?_⟩
  exact pairwise_middle.mpr ⟨hgaps, fun c hc => ((hbefore c hc).trans_lt hlt).ne,
    fun c hc => hstop ▸ hgap c hc⟩

/-- The block that serves a request of `want` bytes from `b`. -/
def Block.cut (b : Block) (want : ℕ) : Block :=
  ⟨b.addr, if b.size ≤ want + 28 then b.size else want⟩

/-- What is left of `b` behind it: nothing, or a block that can hold more than
    16 bytes. -/
def Block.rest (b : Block) (want : ℕ) : List Block :=
  if b.size ≤ want + 28 then [] else [⟨b.addr + 12 + want, b.size - want - 12⟩]

/-- A free block serves a request. -/
theorem Layout.take (h : Layout lo hi (pre ++ b :: post) live) (want : ℕ) :
    Layout lo hi (pre ++ (b.rest want ++ post)) (b.cut want :: live) := by
  have hb : b ∈ pre ++ b :: post := by simp
  have hbin := h.inside b (List.mem_append_left _ hb)
  have hcut : (b.cut want).stop ≤ b.stop := by
    simp only [Block.cut, Block.stop]
    split_ifs <;> omega
  have hcross : ∀ c ∈ live, (b.cut want).Disj c := by
    intro c hc
    have := h.cross b hb c hc
    have haddr : (b.cut want).addr = b.addr := rfl
    simp only [Block.Disj] at *
    omega
  obtain ⟨-, hbefore, hafter⟩ := pairwise_middle.mp h.ordered
  have hothers : ∀ c ∈ pre ++ post, c.Disj (b.cut want) := by
    intro c hc
    obtain hc | hc := List.mem_append.mp hc
    · exact .inl (hbefore c hc)
    · exact .inr (hcut.trans (hafter c hc))
  by_cases hsize : b.size ≤ want + 28
  · rw [Block.rest, if_pos hsize]
    exact h.remove.grant hbin.1 (hcut.trans hbin.2) hothers hcross
  · rw [Block.rest, if_neg hsize]
    have hlt : b.addr < b.addr + 12 + want := by omega
    have hstop : (⟨b.addr + 12 + want, b.size - want - 12⟩ : Block).stop = b.stop := by
      simp only [Block.stop]
      omega
    refine (h.shrink hlt hstop).grant hbin.1 (hcut.trans hbin.2) (fun c hc => ?_) hcross
    simp only [List.mem_append, List.mem_cons] at hc
    obtain hc | rfl | hc := hc
    · exact hothers c (List.mem_append_left _ hc)
    · refine .inr ?_
      simp [Block.cut, Block.stop, hsize]
    · exact hothers c (List.mem_append_right _ hc)

/-- A new block behind all others. -/
theorem Layout.extend (h : Layout lo hi free live) (hlo : lo ≤ hi) (hb : hi ≤ b.addr) :
    Layout lo b.stop free (b :: live) := by
  have hle : hi ≤ b.stop := hb.trans (Nat.le_of_add_right_le b.addr_lt_stop)
  refine (h.mono hle).grant (hlo.trans hb) le_rfl (fun c hc => .inl ?_) (fun c hc => .inr ?_)
  · exact (h.inside c (List.mem_append_left _ hc)).2.trans hb
  · exact (h.inside c (List.mem_append_right _ hc)).2.trans hb

/-! ## Taking blocks back -/

/-- A live block becomes a free one, at its place in the order. -/
theorem Arranged.insert (h : Arranged lo hi (pre ++ post) (b :: live))
    (hpre : ∀ a ∈ pre, a.addr < b.addr) (hpost : ∀ c ∈ post, b.addr ≤ c.addr)
    (hb : b.addr ≠ 0) : Arranged lo hi (pre ++ b :: post) live := by
  obtain ⟨hcross, hpairs⟩ := List.pairwise_cons.mp h.pairs
  have hrest : Arranged lo hi (pre ++ post) live := by
    have hsub := (List.sublist_cons_self b live).append_left (pre ++ post)
    exact ⟨fun c hc => h.inside c (hsub.subset hc), h.ordered, hpairs,
      fun c hc d hd => h.cross c hc d (List.mem_cons_of_mem b hd), h.nonnull⟩
  have hdisj : ∀ c ∈ pre ++ post, c.Disj b := fun c hc => h.cross c hc b List.mem_cons_self
  have hstop := b.addr_lt_stop
  refine hrest.put (h.inside b (by simp)) (fun c hc => ?_) (fun c hc => ?_) hcross hb
  · have := hpre c hc
    have := hdisj c (List.mem_append_left _ hc)
    simp only [Block.Disj] at this
    omega
  · have := hpost c hc
    have := hdisj c (List.mem_append_right _ hc)
    have := c.addr_lt_stop
    simp only [Block.Disj] at *
    omega

/-- Two neighbours that touch become one. -/
theorem Arranged.join (h : Arranged lo hi (pre ++ a :: b :: post) live) (hab : a.stop = b.addr) :
    Arranged lo hi (pre ++ a.join b :: post) live := by
  have hstop := Block.join_stop hab
  have ha : a ∈ pre ++ a :: b :: post := by simp
  have hb : b ∈ pre ++ a :: b :: post := by simp
  obtain ⟨hrest, hbefore, -⟩ := pairwise_middle.mp h.ordered
  obtain ⟨-, -, hafter⟩ := pairwise_middle.mp hrest
  refine h.remove.remove.put ⟨(h.inside a (List.mem_append_left _ ha)).1, ?_⟩ hbefore
    (fun c hc => hstop ▸ hafter c hc) (fun d hd => (h.cross a ha d hd).join hab (h.cross b hb d hd))
    (h.nonnull a ha)
  rw [hstop]
  exact (h.inside b (List.mem_append_left _ hb)).2

/-- `b` joined with the last block in front of it, if they touch. -/
def joinLeft (pre : List Block) (b : Block) : List Block × Block :=
  match pre.getLast? with
  | some p => if p.stop = b.addr then (pre.dropLast, p.join b) else (pre, b)
  | none => (pre, b)

/-- `b` joined with the first block behind it, if they touch. -/
def joinRight (b : Block) : List Block → List Block
  | [] => [b]
  | c :: post => if b.stop = c.addr then b.join c :: post else b :: c :: post

theorem joinLeft_layout {pre' : List Block} {b' : Block} (hjoin : joinLeft pre b = (pre', b'))
    (h : Arranged lo hi (pre ++ b :: post) live)
    (hgaps : (pre ++ post).Pairwise fun a b => a.stop ≠ b.addr) :
    Arranged lo hi (pre' ++ b' :: post) live ∧
      ((pre' ++ post).Pairwise fun a b => a.stop ≠ b.addr) ∧ ∀ a ∈ pre', a.stop ≠ b'.addr := by
  obtain rfl | ⟨front, p, rfl⟩ := List.eq_nil_or_concat pre
  · cases hjoin
    exact ⟨h, hgaps, fun a ha => by cases ha⟩
  · simp only [List.concat_eq_append, joinLeft, List.getLast?_append, List.getLast?_singleton,
      Option.some_or, List.dropLast_concat] at hjoin
    simp only [List.concat_eq_append, List.append_assoc, List.singleton_append] at h hgaps
    obtain ⟨hrest, hgap, -⟩ := pairwise_middle.mp hgaps
    split_ifs at hjoin with htouch <;> cases hjoin
    · exact ⟨h.join htouch, hrest, hgap⟩
    · refine ⟨by simpa using h, by simpa using hgaps, fun a ha => ?_⟩
      obtain ha | ha := List.mem_append.mp ha
      · obtain ⟨hord, hbefore, -⟩ := pairwise_middle.mp h.ordered
        have := hbefore a ha
        have := p.addr_lt_stop
        have : p.stop ≤ b.addr := (pairwise_middle.mp h.ordered).2.2 b List.mem_cons_self
        omega
      · rw [List.mem_singleton.mp ha]
        exact htouch

theorem joinRight_layout (h : Arranged lo hi (pre ++ b :: post) live)
    (hgaps : (pre ++ post).Pairwise fun a b => a.stop ≠ b.addr)
    (hgap : ∀ a ∈ pre, a.stop ≠ b.addr) : Layout lo hi (pre ++ joinRight b post) live := by
  cases post with
  | nil => exact ⟨h, pairwise_middle.mpr ⟨hgaps, hgap, fun c hc => by cases hc⟩⟩
  | cons c post =>
    rw [joinRight]
    split_ifs with htouch
    · refine ⟨h.join htouch, ?_⟩
      obtain ⟨hrest, -, hafter⟩ := pairwise_middle.mp hgaps
      exact pairwise_middle.mpr ⟨hrest, hgap, fun d hd => Block.join_stop htouch ▸ hafter d hd⟩
    · refine ⟨h, pairwise_middle.mpr ⟨hgaps, hgap, fun d hd => ?_⟩⟩
      obtain rfl | hd := List.mem_cons.mp hd
      · exact htouch
      · obtain ⟨hrest, -, hafter⟩ := pairwise_middle.mp h.ordered
        have := hafter c List.mem_cons_self
        have := (pairwise_middle.mp hrest).2.2 d hd
        have := c.addr_lt_stop
        omega

/-- The free blocks after `b` has come back between `pre` and `post`. -/
def release (pre : List Block) (b : Block) (post : List Block) : List Block :=
  (joinLeft pre b).1 ++ joinRight (joinLeft pre b).2 post

theorem Layout.release (h : Layout lo hi (pre ++ post) (b :: live))
    (hpre : ∀ a ∈ pre, a.addr < b.addr) (hpost : ∀ c ∈ post, b.addr ≤ c.addr)
    (hb : b.addr ≠ 0) : Layout lo hi (Heap.release pre b post) live := by
  obtain ⟨harr, hgaps, hgap⟩ := joinLeft_layout rfl (h.toArranged.insert hpre hpost hb) h.gaps
  exact joinRight_layout harr hgaps hgap

/-- What an allocation of `want` bytes does to the blocks of a heap that ends at
    `hi`: the first free block that is large enough is cut, or a block is added
    behind all others, at the next multiple of 8. -/
inductive Allocates (want : ℕ) : ℕ → List Block → Block → ℕ → List Block → Prop
  | reuse {hi : ℕ} {pre post : List Block} {b : Block} (hpre : ∀ a ∈ pre, a.size < want)
      (hb : want ≤ b.size) :
      Allocates want hi (pre ++ b :: post) (b.cut want) hi (pre ++ (b.rest want ++ post))
  | extend {hi hdr : ℕ} {free : List Block} (hfit : ∀ b ∈ free, b.size < want)
      (hhdr : hdr = (hi + 7) / 8 * 8) :
      Allocates want hi free ⟨hdr, want⟩ (hdr + 12 + want) free

theorem Allocates.hi_eq {want hi hi' : ℕ} {free free' : List Block} {b : Block}
    (ha : Allocates want hi free b hi' free') (hc : ∃ c ∈ free, want ≤ c.size) : hi' = hi := by
  cases ha with
  | reuse => rfl
  | extend hfit =>
    obtain ⟨c, hc, hle⟩ := hc
    exact absurd (hfit c hc) (not_lt.mpr hle)

/-- The end moves by the size of the request, the header and the rounding. -/
theorem Allocates.hi_le {want hi hi' : ℕ} {free free' : List Block} {b : Block}
    (ha : Allocates want hi free b hi' free') : hi' ≤ hi + want + 19 := by
  cases ha with
  | reuse | extend _ hhdr => omega

/-- What the release of `b` does to the free blocks. A block at address 0 has the
    null pointer, and the list is lost with it. -/
inductive Releases (b : Block) : List Block → List Block → Prop
  | release {pre post : List Block} (hpre : ∀ a ∈ pre, a.addr < b.addr)
      (hpost : ∀ c ∈ post, b.addr ≤ c.addr) (hb : b.addr ≠ 0) :
      Releases b (pre ++ post) (release pre b post)
  | lost {free : List Block} (hb : b.addr = 0) : Releases b free []

/-- Forgetting a live block. -/
theorem Layout.forget (h : Layout lo hi free (b :: live)) : Layout lo hi free live := by
  refine ⟨⟨fun c hc => h.inside c ?_, h.ordered, h.pairs.of_cons,
    fun c hc d hd => h.cross c hc d (List.mem_cons_of_mem b hd), h.nonnull⟩, h.gaps⟩
  simp only [List.mem_append, List.mem_cons] at hc ⊢
  tauto

/-- The order of the live blocks does not matter. -/
theorem Layout.perm {live' : List Block} (h : Layout lo hi free live) (hp : live.Perm live') :
    Layout lo hi free live' := by
  refine ⟨⟨fun c hc => h.inside c ?_, h.ordered,
    (hp.pairwise_iff Block.Disj.symm).mp h.pairs,
    fun c hc d hd => h.cross c hc d (hp.mem_iff.mpr hd), h.nonnull⟩, h.gaps⟩
  simpa only [List.mem_append, hp.mem_iff] using hc

/-- The place of an address in the order of the free blocks. -/
theorem ordered_split (hord : free.Pairwise fun a b => a.stop ≤ b.addr) (x : ℕ) :
    ∃ pre post, free = pre ++ post ∧ (∀ a ∈ pre, a.addr < x) ∧ ∀ c ∈ post, x ≤ c.addr := by
  induction free with
  | nil => exact ⟨[], [], rfl, by simp, by simp⟩
  | cons a free ih =>
    obtain ⟨hfirst, hrest⟩ := List.pairwise_cons.mp hord
    by_cases hx : a.addr < x
    · obtain ⟨pre, post, rfl, hpre, hpost⟩ := ih hrest
      refine ⟨a :: pre, post, rfl, fun c hc => ?_, hpost⟩
      obtain rfl | hc := List.mem_cons.mp hc
      · exact hx
      · exact hpre c hc
    · refine ⟨[], a :: free, rfl, by simp, fun c hc => ?_⟩
      obtain rfl | hc := List.mem_cons.mp hc
      · exact not_lt.mp hx
      · have := hfirst c hc
        have := a.addr_lt_stop
        omega

/-- Forgetting the free blocks. -/
theorem Layout.forget_free (h : Layout lo hi free live) : Layout lo hi [] live :=
  ⟨⟨fun c hc => h.inside c (List.mem_append_right _ (by simpa using hc)), .nil, h.pairs,
    fun c hc => (by cases hc), fun c hc => (by cases hc)⟩, .nil⟩

end

end Mboot.Heap
