import Mboot.Heap.Layout
import Mboot.Heap.Model

/-!
# The free list in memory

`FreeList mem head free`: the chain of headers that starts at `head` is the
list of blocks `free`. The functions on the free list are run on it:

* `find_some`, `find_none`: the first block that fits is unlinked.
* `split_spec`: the rest of a block goes back to the list.
* `link_spec`, `joinLeft_spec`, `joinRight_spec`: insertion in order, and the
  two attempts to join.

A write to a header is an `Edit`: it changes one header and nothing else.
-/

namespace Mboot.Heap

open Common

/-! ## Headers -/

/-- The contents of a header. -/
structure Header where
  size : ℕ
  free : Bool
  next : ℕ

/-- The header at `block`. -/
def header (mem : ℕ → UInt8) (block : ℕ) : Header :=
  ⟨blockSize mem block, blockFree mem block, blockNext mem block⟩

/-- `mem'` has the header `hd` at `a` and agrees with `mem` elsewhere. -/
structure Edit (mem : ℕ → UInt8) (a : ℕ) (hd : Header) (mem' : ℕ → UInt8) : Prop where
  header : header mem' a = hd
  frame : ∀ x, x < a ∨ a + 12 ≤ x → mem' x = mem x

section Headers

variable {mem mem' mem'' : ℕ → UInt8} {a b : ℕ} {hd hd' : Header}

theorem header_congr (h : ∀ i < 12, mem' (b + i) = mem (b + i)) :
    header mem' b = header mem b := by
  have hsize : blockSize mem' b = blockSize mem b := load_congr fun i hi => h i (by omega)
  have hfree : blockFree mem' b = blockFree mem b := by rw [blockFree, blockFree, h 4 (by omega)]
  have hnext : blockNext mem' b = blockNext mem b := by
    refine load_congr fun i hi => ?_
    rw [Nat.add_assoc]
    exact h (8 + i) (by omega)
  rw [header, header, hsize, hfree, hnext]

theorem Edit.header_of_disj (h : Edit mem a hd mem') (hab : b + 12 ≤ a ∨ a + 12 ≤ b) :
    Heap.header mem' b = Heap.header mem b :=
  header_congr fun i hi => h.frame _ (by omega)

theorem Edit.trans (h : Edit mem a hd mem') (h' : Edit mem' a hd' mem'') : Edit mem a hd' mem'' :=
  ⟨h'.header, fun x hx => (h'.frame x hx).trans (h.frame x hx)⟩

theorem edit_setSize (mem : ℕ → UInt8) (a : ℕ) {v : ℕ} (hv : v < 2 ^ 32) :
    Edit mem a { header mem a with size := v } (setSize mem a v) := by
  refine ⟨?_, fun x hx => storeWord_of_outside mem v (by omega)⟩
  have hsize : blockSize (setSize mem a v) a = v := by
    rw [blockSize, setSize, load_storeWord]
    exact Nat.mod_eq_of_lt hv
  have hfree : blockFree (setSize mem a v) a = blockFree mem a := by
    rw [blockFree, setSize, storeWord_of_outside mem v (by omega), blockFree]
  have hnext : blockNext (setSize mem a v) a = blockNext mem a :=
    load_storeWord_of_disjoint mem v (by omega)
  simp only [header, hsize, hfree, hnext]

theorem edit_setFree (mem : ℕ → UInt8) (a : ℕ) (v : Bool) :
    Edit mem a { header mem a with free := v } (setFree mem a v) := by
  refine ⟨?_, fun x hx => store_of_outside mem (by simp only [List.length_singleton]; omega)⟩
  have hsize : blockSize (setFree mem a v) a = blockSize mem a :=
    load_store_of_disjoint mem (by omega)
  have hfree : blockFree (setFree mem a v) a = v := by
    have hbyte : store mem (a + 4) [if v then (1 : UInt8) else 0] (a + 4 + 0) = if v then 1 else 0 :=
      store_apply mem (a + 4) (by simp)
    rw [blockFree, setFree]
    simp only [Nat.add_zero] at hbyte
    rw [hbyte]
    cases v <;> rfl
  have hnext : blockNext (setFree mem a v) a = blockNext mem a :=
    load_store_of_disjoint mem (by simp only [List.length_singleton]; omega)
  simp only [header, hsize, hfree, hnext]

theorem edit_setNext (mem : ℕ → UInt8) (a : ℕ) {v : ℕ} (hv : v < 2 ^ 32) :
    Edit mem a { header mem a with next := v } (setNext mem a v) := by
  refine ⟨?_, fun x hx => storeWord_of_outside mem v (by omega)⟩
  have hsize : blockSize (setNext mem a v) a = blockSize mem a :=
    load_storeWord_of_disjoint mem v (by omega)
  have hfree : blockFree (setNext mem a v) a = blockFree mem a := by
    rw [blockFree, setNext, storeWord_of_outside mem v (by omega), blockFree]
  have hnext : blockNext (setNext mem a v) a = v := by
    rw [blockNext, setNext, load_storeWord]
    exact Nat.mod_eq_of_lt hv
  simp only [header, hsize, hfree, hnext]

/-- All fields of a header. -/
theorem edit_all (mem : ℕ → UInt8) (a size next : ℕ) (free : Bool) (hsize : size < 2 ^ 32)
    (hnext : next < 2 ^ 32) :
    Edit mem a ⟨size, free, next⟩ (setNext (setFree (setSize mem a size) a free) a next) := by
  have h1 := edit_setSize mem a hsize
  have h2 := edit_setFree (setSize mem a size) a free
  have h3 := edit_setNext (setFree (setSize mem a size) a free) a hnext
  rw [h2.header, h1.header] at h3
  rw [h1.header] at h2
  exact (h1.trans h2).trans h3

end Headers

/-! ## The list -/

/-- The chain of headers from `head` on is the list of blocks `free`. -/
structure FreeList (mem : ℕ → UInt8) (head : ℕ) (free : List Block) : Prop where
  links : Links (blockNext mem) head (free.map Block.addr) 0
  headers : ∀ b ∈ free, blockSize mem b.addr = b.size ∧ blockFree mem b.addr = true

section FreeList

variable {mem mem' : ℕ → UInt8} {head z : ℕ} {free pre post : List Block} {a a' b : Block}

theorem FreeList.congr (h : FreeList mem head free)
    (hc : ∀ b ∈ free, header mem' b.addr = header mem b.addr) : FreeList mem' head free := by
  refine ⟨h.links.congr fun x hx => ?_, fun b hb => ?_⟩
  · obtain ⟨b, hb, rfl⟩ := List.mem_map.mp hx
    exact congrArg Header.next (hc b hb)
  · obtain ⟨hsize, hfree⟩ := h.headers b hb
    exact ⟨(congrArg Header.size (hc b hb)).trans hsize,
      (congrArg Header.free (hc b hb)).trans hfree⟩

/-- The blocks of the list, read off their headers. -/
theorem FreeList.nodes_eq (h : FreeList mem head free) :
    ((free.map Block.addr).map fun a => (⟨a, blockSize mem a⟩ : Block)) = free := by
  rw [List.map_map]
  conv_rhs => rw [← List.map_id free]
  exact List.map_congr_left fun b hb => by
    rw [Function.comp_apply, (h.headers b hb).1]
    rfl

theorem FreeList.unique {free' : List Block} (h : FreeList mem head free)
    (h' : FreeList mem head free') (hnull : ∀ b ∈ free, b.addr ≠ 0)
    (hnull' : ∀ b ∈ free', b.addr ≠ 0) : free = free' := by
  have haddr : free.map Block.addr = free'.map Block.addr := by
    refine h.links.unique h'.links (fun hm => ?_) fun hm => ?_
    · obtain ⟨b, hb, hzero⟩ := List.mem_map.mp hm
      exact hnull b hb hzero
    · obtain ⟨b, hb, hzero⟩ := List.mem_map.mp hm
      exact hnull' b hb hzero
  rw [← h.nodes_eq, ← h'.nodes_eq, haddr]

/-- Edits outside of the blocks leave the list as it is. -/
theorem FreeList.edit_outside {x : ℕ} {hd : Header} (h : FreeList mem head free)
    (he : Edit mem x hd mem') (hx : ∀ b ∈ free, b.addr + 12 ≤ x ∨ x + 12 ≤ b.addr) :
    FreeList mem' head free :=
  h.congr fun b hb => he.header_of_disj (hx b hb)

/-- The list behind one of its nodes. -/
theorem FreeList.tail (h : FreeList mem head (pre ++ b :: post)) :
    FreeList mem (blockNext mem b.addr) post := by
  have hlinks := h.links
  rw [List.map_append, List.map_cons] at hlinks
  obtain ⟨y, -, -, htail⟩ := links_append.mp hlinks
  exact ⟨htail, fun c hc => h.headers c (by simp [hc])⟩

/-- The part of the list that starts at a node. -/
theorem FreeList.suffix (h : FreeList mem head (pre ++ post)) :
    FreeList mem ((post.map Block.addr).headD 0) post := by
  have hlinks := h.links
  rw [List.map_append] at hlinks
  obtain ⟨y, -, htail⟩ := links_append.mp hlinks
  exact ⟨htail.head_eq ▸ htail, fun c hc => h.headers c (by simp [hc])⟩

/-- One node is given another size and another rest of the list. -/
theorem FreeList.edit {l l' : List Block} (h : FreeList mem head (pre ++ a :: l))
    (he : Edit mem a.addr ⟨a'.size, true, z⟩ mem') (haddr : a'.addr = a.addr)
    (htail : FreeList mem z l')
    (hdisj : ∀ c ∈ pre ++ l', c.addr + 12 ≤ a.addr ∨ a.addr + 12 ≤ c.addr) :
    FreeList mem' head (pre ++ a' :: l') := by
  have hsame : ∀ c ∈ pre ++ l', header mem' c.addr = header mem c.addr :=
    fun c hc => he.header_of_disj (hdisj c hc)
  constructor
  · have hlinks := h.links
    rw [List.map_append, List.map_cons] at hlinks ⊢
    rw [haddr]
    refine hlinks.update (congrArg Header.next he.header) htail.links fun x hx => ?_
    rw [← List.map_append] at hx
    obtain ⟨c, hc, rfl⟩ := List.mem_map.mp hx
    exact congrArg Header.next (hsame c hc)
  · intro c hc
    have hcases : c = a' ∨ c ∈ pre ++ l' := by
      simp only [List.mem_append, List.mem_cons] at hc ⊢
      tauto
    obtain rfl | hc := hcases
    · rw [haddr]
      exact ⟨congrArg Header.size he.header, congrArg Header.free he.header⟩
    · have hold : blockSize mem c.addr = c.size ∧ blockFree mem c.addr = true := by
        obtain hc | hc := List.mem_append.mp hc
        · exact h.headers c (List.mem_append_left _ hc)
        · exact htail.headers c hc
      exact ⟨(congrArg Header.size (hsame c hc)).trans hold.1,
        (congrArg Header.free (hsame c hc)).trans hold.2⟩

end FreeList

/-! ## The functions on the list -/

/-- The two states have the same region, and their memories agree outside of
    the blocks `bs`. -/
structure Within (h h' : HeapState) (bs : List Block) : Prop where
  freeRam : h'.freeRam = h.freeRam
  freeRamEnd : h'.freeRamEnd = h.freeRamEnd
  bumpNext : h'.bumpNext = h.bumpNext
  frame : ∀ x, (∀ b ∈ bs, x < b.addr ∨ b.stop ≤ x) → h'.mem x = h.mem x

theorem Within.refl (h : HeapState) (bs : List Block) : Within h h bs :=
  ⟨rfl, rfl, rfl, fun _ _ => rfl⟩

theorem Within.trans {h h' h'' : HeapState} {bs : List Block} (h1 : Within h h' bs)
    (h2 : Within h' h'' bs) : Within h h'' bs :=
  ⟨h2.freeRam.trans h1.freeRam, h2.freeRamEnd.trans h1.freeRamEnd, h2.bumpNext.trans h1.bumpNext,
    fun x hx => (h2.frame x hx).trans (h1.frame x hx)⟩

/-- Blocks that cover the ones changed. -/
theorem Within.cover {h h' : HeapState} {bs bs' : List Block} (h1 : Within h h' bs)
    (hc : ∀ c ∈ bs, ∃ d ∈ bs', d.addr ≤ c.addr ∧ c.stop ≤ d.stop) : Within h h' bs' := by
  refine ⟨h1.freeRam, h1.freeRamEnd, h1.bumpNext, fun x hx => h1.frame x fun c hcm => ?_⟩
  obtain ⟨d, hd, hlo, hhi⟩ := hc c hcm
  have := hx d hd
  omega

theorem Within.mono {h h' : HeapState} {bs bs' : List Block} (h1 : Within h h' bs)
    (hsub : ∀ b ∈ bs, b ∈ bs') : Within h h' bs' :=
  h1.cover fun b hb => ⟨b, hsub b hb, le_rfl, le_rfl⟩

/-- An edit of a header inside the block `b`. -/
theorem Edit.within {h : HeapState} {mem' : ℕ → UInt8} {x head : ℕ} {hd : Header} {b : Block}
    {bs : List Block} (he : Edit h.mem x hd mem') (hb : b ∈ bs) (hlo : b.addr ≤ x)
    (hhi : x + 12 ≤ b.stop) : Within h { h with mem := mem', freeListHead := head } bs :=
  ⟨rfl, rfl, rfl, fun y hy => he.frame y (by have := hy b hb; omega)⟩

/-- The header of a block apart from all blocks changed. -/
theorem Within.header {h h' : HeapState} {bs : List Block} {b : Block} (hw : Within h h' bs)
    (hb : ∀ c ∈ bs, c.Disj b) : Heap.header h'.mem b.addr = Heap.header h.mem b.addr := by
  refine header_congr fun i hi => hw.frame _ fun c hc => ?_
  have := hb c hc
  have := b.addr_lt_stop
  simp only [Block.Disj] at *
  omega

section Functions

variable {h : HeapState} {lo hi z want : ℕ} {free live pre post : List Block} {b : Block}

theorem headers_of_ordered (hord : (pre ++ b :: post).Pairwise fun a b => a.stop ≤ b.addr) :
    ∀ c ∈ pre ++ post, c.addr + 12 ≤ b.addr ∨ b.addr + 12 ≤ c.addr := by
  obtain ⟨-, hbefore, hafter⟩ := pairwise_middle.mp hord
  have hb := b.addr_lt_stop
  intro c hc
  have hcs := c.addr_lt_stop
  obtain hc | hc := List.mem_append.mp hc
  · have := hbefore c hc
    omega
  · have := hafter c hc
    omega

/-- Setting the pointer behind `pre`, or the head of the list. -/
theorem FreeList.relink {l l' : List Block} (hl : FreeList h.mem h.freeListHead (pre ++ l))
    (htail : FreeList h.mem z l') (hz : z < 2 ^ 32)
    (hord : (pre ++ l').Pairwise fun a b => a.stop ≤ b.addr) (hnull : ∀ b ∈ pre, b.addr ≠ 0) :
    FreeList (relink h ((pre.map Block.addr).getLastD 0) z).mem
        (relink h ((pre.map Block.addr).getLastD 0) z).freeListHead (pre ++ l') ∧
      Within h (relink h ((pre.map Block.addr).getLastD 0) z) pre := by
  obtain rfl | ⟨front, p, rfl⟩ := List.eq_nil_or_concat pre
  · exact ⟨htail, ⟨rfl, rfl, rfl, fun _ _ => rfl⟩⟩
  · simp only [List.concat_eq_append] at *
    have hp : p.addr ≠ 0 := hnull p (by simp)
    have hlast : ((front ++ [p]).map Block.addr).getLastD 0 = p.addr := by simp
    rw [hlast, Heap.relink, if_pos hp]
    have hhdr := hl.headers p (by simp)
    have he := edit_setNext h.mem p.addr hz
    rw [Heap.header, hhdr.1, hhdr.2] at he
    rw [List.append_assoc, List.singleton_append] at hl hord ⊢
    exact ⟨hl.edit he rfl htail (headers_of_ordered hord),
      he.within (by simp) le_rfl p.addr_lt_stop⟩

/-- The end of a list of bounded blocks comes within the bound of the loops. -/
theorem Arranged.length_lt (ha : Arranged lo hi (pre ++ post) live) (hhi : hi < 2 ^ 32) :
    (pre.map Block.addr).length < listFuel := by
  have hle : pre.length ≤ hi := by
    cases hp : pre ++ post with
    | nil => simp [(List.append_eq_nil_iff.mp hp).1]
    | cons c l =>
      have hc := ha.inside c (by simp [hp])
      have := c.addr_lt_stop
      have := ha.length_le (by omega)
      rw [List.length_append] at this
      omega
  rw [List.length_map, listFuel]
  omega

theorem find_none (hl : FreeList h.mem h.freeListHead free) (ha : Arranged lo hi free live)
    (hhi : hi < 2 ^ 32) (hfit : ∀ b ∈ free, b.size < want) :
    findFreeBlockAndRemove h want = some (0, h) := by
  have hlinks := hl.links
  rw [← List.append_nil (free.map Block.addr)] at hlinks
  have hseek := seek_eq listFuel 0
    (fun cur => blockFree h.mem cur && decide (want ≤ blockSize h.mem cur)) hlinks
    (fun x hx => by
      obtain ⟨b, hb, rfl⟩ := List.mem_map.mp hx
      exact ha.nonnull b hb)
    (fun x hx => by
      obtain ⟨b, hb, rfl⟩ := List.mem_map.mp hx
      have := hfit b hb
      simp [hl.headers b hb, Nat.not_le.mpr this])
    (fun x hx => by cases hx)
    (Arranged.length_lt (by simpa using ha : Arranged lo hi (free ++ []) live) hhi)
  rw [findFreeBlockAndRemove, hseek]
  rfl

/-- The first block that fits is unlinked. -/
theorem find_some (hl : FreeList h.mem h.freeListHead (pre ++ b :: post))
    (ha : Arranged lo hi (pre ++ b :: post) live) (hhi : hi < 2 ^ 32)
    (hpre : ∀ a ∈ pre, a.size < want) (hb : want ≤ b.size) :
    ∃ h', findFreeBlockAndRemove h want = some (b.addr, h') ∧
      FreeList h'.mem h'.freeListHead (pre ++ post) ∧ blockSize h'.mem b.addr = b.size ∧
      Within h h' (pre ++ b :: post) := by
  have hbmem : b ∈ pre ++ b :: post := by simp
  have hbnull := ha.nonnull b hbmem
  have hpnull : ∀ a ∈ pre, a.addr ≠ 0 := fun a hm => ha.nonnull a (by simp [hm])
  have hlinks := hl.links
  rw [List.map_append] at hlinks
  have hseek := seek_eq listFuel 0
    (fun cur => blockFree h.mem cur && decide (want ≤ blockSize h.mem cur)) hlinks
    (fun x hx => by
      obtain ⟨a, hm, rfl⟩ := List.mem_map.mp hx
      exact hpnull a hm)
    (fun x hx => by
      obtain ⟨a, hm, rfl⟩ := List.mem_map.mp hx
      have := hpre a hm
      simp [hl.headers a (List.mem_append_left _ hm), Nat.not_le.mpr this])
    (fun x hx => by
      cases hx
      simp [hl.headers b hbmem, hb])
    (ha.length_lt hhi)
  have hord : (pre ++ post).Pairwise fun a b => a.stop ≤ b.addr := (pairwise_middle.mp ha.ordered).1
  obtain ⟨hlist, hwithin⟩ := hl.relink hl.tail (load_lt 4 h.mem _) hord hpnull
  have hdisj := headers_of_ordered ha.ordered
  -- the unlinked block is marked in use
  generalize hh1 : relink h ((pre.map Block.addr).getLastD 0) (blockNext h.mem b.addr) = h1 at *
  have he := (edit_setNext h1.mem b.addr (v := 0) (by norm_num)).trans
    (edit_setFree (setNext h1.mem b.addr 0) b.addr false)
  refine ⟨{ h1 with mem := setFree (setNext h1.mem b.addr 0) b.addr false }, ?_, ?_, ?_, ?_⟩
  · rw [findFreeBlockAndRemove, hseek, Option.map_some]
    simp only [List.map_cons, List.headD_cons, if_neg hbnull, hh1]
  · exact hlist.edit_outside he hdisj
  · have hsize : blockSize (setFree (setNext h1.mem b.addr 0) b.addr false) b.addr =
        blockSize (setNext h1.mem b.addr 0) b.addr := congrArg Header.size he.header
    have hsize' : blockSize (setNext h1.mem b.addr 0) b.addr = blockSize h1.mem b.addr :=
      congrArg Header.size (edit_setNext h1.mem b.addr (v := 0) (by norm_num)).header
    have hkeep : blockSize h1.mem b.addr = blockSize h.mem b.addr :=
      congrArg Header.size (hwithin.header fun c hc =>
        .inl ((pairwise_middle.mp ha.ordered).2.1 c hc))
    exact hsize.trans (hsize'.trans (hkeep.trans (hl.headers b hbmem).1))
  · exact (hwithin.mono fun c hc => List.mem_append_left _ hc).trans
      (he.within hbmem le_rfl b.addr_lt_stop)

/-- The two pointers of the loop over the ordered list. -/
theorem seek_sorted {l : List Block} (hl : FreeList h.mem h.freeListHead (pre ++ l))
    (ha : Arranged lo hi (pre ++ b :: post) live) (hhi : hi < 2 ^ 32)
    (hlast : ∀ c ∈ l.head?, b.addr ≤ c.addr) :
    seek 0 (blockNext h.mem) (fun cur => decide (b.addr ≤ cur)) listFuel 0 h.freeListHead =
      some ((pre.map Block.addr).getLastD 0, (l.map Block.addr).headD 0) := by
  have hlinks := hl.links
  rw [List.map_append] at hlinks
  refine seek_eq _ _ _ hlinks (fun x hx => ?_) (fun x hx => ?_) (fun x hx => ?_) (ha.length_lt hhi)
  · obtain ⟨a, hm, rfl⟩ := List.mem_map.mp hx
    exact ha.nonnull a (List.mem_append_left _ hm)
  · obtain ⟨a, hm, rfl⟩ := List.mem_map.mp hx
    have := (pairwise_middle.mp ha.ordered).2.1 a hm
    have := a.addr_lt_stop
    rw [decide_eq_false_iff_not]
    omega
  · cases l with
    | nil => cases hx
    | cons c l =>
      cases hx
      exact decide_eq_true (hlast c rfl)

/-- A block with its header filled in is linked at its place. -/
theorem link_spec (hl : FreeList h.mem h.freeListHead (pre ++ post))
    (hhdr : blockSize h.mem b.addr = b.size ∧ blockFree h.mem b.addr = true)
    (ha : Arranged lo hi (pre ++ b :: post) live) (hhi : hi < 2 ^ 32) :
    ∃ h', linkSorted h b.addr = some ((pre.map Block.addr).getLastD 0, h') ∧
      FreeList h'.mem h'.freeListHead (pre ++ b :: post) ∧ Within h h' (pre ++ [b]) := by
  obtain ⟨-, -, hafter⟩ := pairwise_middle.mp ha.ordered
  have hb := b.addr_lt_stop
  have hseek := seek_sorted hl ha hhi fun c hc => by
    have := hafter c (List.mem_of_mem_head? hc)
    omega
  have hcur : (post.map Block.addr).headD 0 < 2 ^ 32 := by
    cases post with
    | nil => simp
    | cons c post =>
      have := ha.inside c (by simp)
      have := c.addr_lt_stop
      simp only [List.map_cons, List.headD_cons]
      omega
  have hnull : ∀ a ∈ pre, a.addr ≠ 0 := fun a hm => ha.nonnull a (List.mem_append_left _ hm)
  have he := edit_setNext h.mem b.addr hcur
  have hlist := hl.edit_outside he (headers_of_ordered ha.ordered)
  rw [header, hhdr.1, hhdr.2] at he
  have hnode : FreeList (setNext h.mem b.addr ((post.map Block.addr).headD 0)) b.addr
      (b :: post) := by
    refine ⟨⟨rfl, ?_⟩, fun c hc => ?_⟩
    · have hnext : blockNext (setNext h.mem b.addr ((post.map Block.addr).headD 0)) b.addr =
          (post.map Block.addr).headD 0 := congrArg Header.next he.header
      rw [hnext]
      exact hlist.suffix.links
    · obtain rfl | hc := List.mem_cons.mp hc
      · exact ⟨congrArg Header.size he.header, congrArg Header.free he.header⟩
      · exact hlist.headers c (List.mem_append_right _ hc)
  have hbound : b.addr < 2 ^ 32 := by
    have := ha.inside b (by simp)
    omega
  obtain ⟨hdone, hwithin⟩ := FreeList.relink
    (h := { h with mem := setNext h.mem b.addr ((post.map Block.addr).headD 0) })
    hlist hnode hbound ha.ordered hnull
  refine ⟨_, by rw [linkSorted, hseek]; rfl, hdone, ?_⟩
  have hfirst : Within h { h with mem := setNext h.mem b.addr ((post.map Block.addr).headD 0) }
      (pre ++ [b]) := he.within (by simp) le_rfl hb
  exact hfirst.trans (hwithin.mono fun c hc => List.mem_append_left _ hc)

/-- `try_split_block` puts the rest of the block back. -/
theorem split_spec (hl : FreeList h.mem h.freeListHead (pre ++ post))
    (hsize : blockSize h.mem b.addr = b.size) (hla : Arranged lo hi (pre ++ b :: post) live)
    (hhi : hi < 2 ^ 32) (hwant : want + 28 < 2 ^ 32) :
    ∃ h', trySplitBlock h b.addr want = some h' ∧
      FreeList h'.mem h'.freeListHead (pre ++ (b.rest want ++ post)) ∧
      blockSize h'.mem b.addr = (b.cut want).size ∧ Within h h' (pre ++ b :: post) := by
  have hmod : (want + 12 + 16) % 2 ^ 32 = want + 28 := Nat.mod_eq_of_lt hwant
  by_cases hsmall : b.size ≤ want + 28
  · refine ⟨h, ?_, ?_, ?_, .refl h _⟩
    · simp only [trySplitBlock, hsize, hmod, if_pos hsmall]
    · simpa [Block.rest, hsmall] using hl
    · simpa [Block.cut, hsmall] using hsize
  · have hin := hla.inside b (by simp)
    have hstop : b.stop = b.addr + 12 + b.size := rfl
    have hbmem : b ∈ pre ++ b :: post := by simp
    generalize hr : (⟨b.addr + 12 + want, b.size - want - 12⟩ : Block) = r
    have hraddr : r.addr = b.addr + 12 + want := by rw [← hr]
    have hrsize : r.size = b.size - want - 12 := by rw [← hr]
    have hrstop : r.stop = b.stop := by
      rw [Block.stop, hraddr, hrsize]
      omega
    have hshrunk := hla.shrink (a := r) (by omega) hrstop
    have hnew : (b.addr + 12 + want) % 2 ^ 32 = r.addr := by
      rw [hraddr]
      exact Nat.mod_eq_of_lt (by omega)
    have hrest : (b.size + 2 ^ 33 - want - 12) % 2 ^ 32 = r.size := by
      rw [hrsize]
      omega
    -- the new header, then the size of the block itself
    have he1 := edit_all h.mem r.addr r.size 0 true (by omega) (by norm_num)
    generalize hm1 : setNext (setFree (setSize h.mem r.addr r.size) r.addr true) r.addr 0 = m1 at he1
    have he2 := edit_setSize m1 b.addr (v := want) (by omega)
    generalize hm2 : setSize m1 b.addr want = m2 at he2
    have hdisj : ∀ c ∈ pre ++ post, c.addr + 12 ≤ r.addr ∨ r.addr + 12 ≤ c.addr :=
      headers_of_ordered hshrunk.ordered
    have hlist : FreeList m2 h.freeListHead (pre ++ post) :=
      (hl.edit_outside he1 hdisj).edit_outside he2 (headers_of_ordered hla.ordered)
    have hrhdr : blockSize m2 r.addr = r.size ∧ blockFree m2 r.addr = true := by
      have hsame := (he2.header_of_disj (b := r.addr) (by omega)).trans he1.header
      exact ⟨congrArg Header.size hsame, congrArg Header.free hsame⟩
    obtain ⟨h', hlink, hdone, hwithin⟩ := link_spec (h := { h with mem := m2 }) hlist hrhdr hshrunk
      hhi
    refine ⟨h', ?_, ?_, ?_, ?_⟩
    · simp only [trySplitBlock, hsize, hmod, if_neg hsmall, hnew, hrest, hm1, hm2, hlink,
        Option.map_some]
    · rw [Block.rest, if_neg hsmall, hr]
      exact hdone
    · have hcut : (b.cut want).stop = r.addr := by simp [Block.cut, Block.stop, hsmall, hraddr]
      have hkeep : header h'.mem (b.cut want).addr = header m2 (b.cut want).addr := by
        refine hwithin.header fun c hc => ?_
        obtain hc | hc := List.mem_append.mp hc
        · exact .inl ((pairwise_middle.mp hla.ordered).2.1 c hc)
        · rw [List.mem_singleton.mp hc]
          exact .inr hcut.le
      rw [show (b.cut want).size = want by simp [Block.cut, hsmall]]
      exact (congrArg Header.size hkeep).trans (congrArg Header.size he2.header)
    · have hfirst : Within h { h with mem := m1 } (pre ++ b :: post) :=
        he1.within hbmem (by omega) (by omega)
      have hsecond : Within { h with mem := m1 } { h with mem := m2 } (pre ++ b :: post) :=
        Edit.within (h := { h with mem := m1 }) he2 hbmem le_rfl b.addr_lt_stop
      refine (hfirst.trans hsecond).trans (hwithin.cover fun c hc => ?_)
      obtain hc | hc := List.mem_append.mp hc
      · exact ⟨c, List.mem_append_left _ hc, le_rfl, le_rfl⟩
      · rw [List.mem_singleton.mp hc]
        exact ⟨b, hbmem, by omega, hrstop.le⟩

/-! ## Joining -/

/-- Whatever it does, `try_coalesce_adjacent` writes the first header only. -/
theorem tryCoalesceAdjacent_frame (mem : ℕ → UInt8) (a c : ℕ) {x : ℕ}
    (hx : x < a ∨ a + 12 ≤ x) : (tryCoalesceAdjacent mem a c).2 x = mem x := by
  unfold tryCoalesceAdjacent
  split_ifs
  · exact (storeWord_of_outside _ _ (by omega)).trans (storeWord_of_outside _ _ (by omega))
  · rfl

/-- `try_coalesce_adjacent` on two neighbours of the list. -/
theorem coalesce_spec {a : Block} (hl : FreeList h.mem h.freeListHead (pre ++ a :: b :: post))
    (ha : Arranged lo hi (pre ++ a :: b :: post) live) (hhi : hi < 2 ^ 32) :
    (a.stop ≠ b.addr → tryCoalesceAdjacent h.mem a.addr b.addr = (false, h.mem)) ∧
    (a.stop = b.addr → ∃ mem', tryCoalesceAdjacent h.mem a.addr b.addr = (true, mem') ∧
      FreeList mem' h.freeListHead (pre ++ a.join b :: post) ∧
      Within h { h with mem := mem' } [a]) := by
  have hain := ha.inside a (by simp)
  have hbin := ha.inside b (by simp)
  have hasize := (hl.headers a (by simp)).1
  have hafree := (hl.headers a (by simp)).2
  have hbsize := (hl.headers b (by simp)).1
  have hastop : a.stop = a.addr + 12 + a.size := rfl
  have hbstop : b.stop = b.addr + 12 + b.size := rfl
  have hend : (a.addr + 12 + blockSize h.mem a.addr) % 2 ^ 32 = a.stop := by
    rw [hasize]
    exact Nat.mod_eq_of_lt (by omega)
  refine ⟨fun hne => ?_, fun heq => ?_⟩
  · rw [tryCoalesceAdjacent, hend, if_neg hne]
  · have hsum : (blockSize h.mem a.addr + 12 + blockSize h.mem b.addr) % 2 ^ 32 =
        (a.join b).size := by
      rw [hasize, hbsize]
      exact Nat.mod_eq_of_lt (by omega)
    have hsize : (a.join b).size < 2 ^ 32 := by
      simp only [Block.join]
      omega
    have he1 := edit_setSize h.mem a.addr hsize
    have hnext : blockNext (setSize h.mem a.addr (a.join b).size) b.addr = blockNext h.mem b.addr :=
      congrArg Header.next (he1.header_of_disj (b := b.addr) (by omega))
    have he := he1.trans (edit_setNext _ a.addr (load_lt 4 h.mem (b.addr + 8)))
    rw [he1.header, header, hafree] at he
    refine ⟨_, ?_, ?_, he.within (List.mem_singleton_self a) le_rfl a.addr_lt_stop⟩
    · simp only [tryCoalesceAdjacent, hend, if_pos heq, hsum, hnext]
      rfl
    · have htail : FreeList h.mem (blockNext h.mem b.addr) post := by
        rw [← List.singleton_append, ← List.append_assoc] at hl
        exact hl.tail
      have hdisj := headers_of_ordered ha.ordered
      refine hl.edit he rfl htail fun c hc => hdisj c ?_
      rcases List.mem_append.mp hc with hc | hc
      · exact List.mem_append_left _ hc
      · exact List.mem_append_right _ (List.mem_cons_of_mem b hc)

/-- Lines 257–267 of `kfree` join the block with the one in front of it. -/
theorem coalescePrev_spec (hl : FreeList h.mem h.freeListHead (pre ++ b :: post))
    (ha : Arranged lo hi (pre ++ b :: post) live) (hhi : hi < 2 ^ 32) :
    ∃ h', coalescePrev h ((pre.map Block.addr).getLastD 0) b.addr =
        some ((joinLeft pre b).2.addr, h') ∧
      FreeList h'.mem h'.freeListHead ((joinLeft pre b).1 ++ (joinLeft pre b).2 :: post) ∧
      Within h h' (pre ++ b :: post) := by
  have hseek := seek_sorted hl ha hhi fun c hc => by cases hc; exact le_rfl
  obtain rfl | ⟨front, p, rfl⟩ := List.eq_nil_or_concat pre
  · exact ⟨h, rfl, hl, .refl h _⟩
  · simp only [List.concat_eq_append] at *
    have hp : p.addr ≠ 0 := ha.nonnull p (by simp)
    have hlast : ((front ++ [p]).map Block.addr).getLastD 0 = p.addr := by simp
    have hjoin : joinLeft (front ++ [p]) b =
        if p.stop = b.addr then (front, p.join b) else (front ++ [p], b) := by
      simp [joinLeft]
    rw [hlast] at hseek ⊢
    have hl' := hl
    have ha' := ha
    rw [List.append_assoc, List.singleton_append] at hl' ha'
    obtain ⟨hapart, htouch⟩ := coalesce_spec hl' ha' hhi
    rw [coalescePrev, if_neg hp, hseek]
    by_cases heq : p.stop = b.addr
    · obtain ⟨mem', hc, hlist, hwithin⟩ := htouch heq
      rw [hjoin, if_pos heq]
      refine ⟨{ h with mem := mem' }, ?_, hlist, hwithin.mono fun c hc => ?_⟩
      · simp only [Option.map_some, if_neg hp, hc]
        rfl
      · rw [List.mem_singleton.mp hc]
        simp
    · rw [hjoin, if_neg heq]
      refine ⟨h, ?_, hl, .refl h _⟩
      simp only [Option.map_some, if_neg hp, hapart heq]

/-- Lines 269–271 of `kfree` write the header of the block only. -/
theorem coalesceNext_within (h : HeapState) (a : ℕ) : Within h (coalesceNext h a) [⟨a, 0⟩] := by
  unfold coalesceNext
  split_ifs
  · exact .refl h _
  · refine ⟨rfl, rfl, rfl, fun x hx => tryCoalesceAdjacent_frame h.mem a _ ?_⟩
    exact hx ⟨a, 0⟩ (List.mem_singleton_self _)

theorem coalesceNext_head (h : HeapState) (a : ℕ) :
    (coalesceNext h a).freeListHead = h.freeListHead := by
  unfold coalesceNext
  split_ifs <;> rfl

/-- Lines 269–271 of `kfree` join the block with the one behind it. -/
theorem coalesceNext_spec (hl : FreeList h.mem h.freeListHead (pre ++ b :: post))
    (ha : Arranged lo hi (pre ++ b :: post) live) (hhi : hi < 2 ^ 32) :
    FreeList (coalesceNext h b.addr).mem (coalesceNext h b.addr).freeListHead
      (pre ++ joinRight b post) := by
  have hnext : blockNext h.mem b.addr = (post.map Block.addr).headD 0 := hl.tail.links.head_eq
  cases post with
  | nil =>
    have hzero : blockNext h.mem b.addr = 0 := hnext
    rw [coalesceNext, if_pos hzero]
    exact hl
  | cons c post =>
    simp only [List.map_cons, List.headD_cons] at hnext
    have hc : c.addr ≠ 0 := ha.nonnull c (by simp)
    obtain ⟨hapart, htouch⟩ := coalesce_spec hl ha hhi
    rw [coalesceNext, hnext, if_neg hc, joinRight]
    by_cases heq : b.stop = c.addr
    · obtain ⟨mem', hj, hlist, -⟩ := htouch heq
      rw [if_pos heq, hj]
      exact hlist
    · rw [if_neg heq, hapart heq]
      exact hl

end Functions

end Mboot.Heap
