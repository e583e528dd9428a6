import Mathlib

/-!
# Chains of `next` pointers

A singly linked list is a function `next` and a head pointer; it ends in a null
pointer. `Links next x l y` says that following `next` from `x` visits the
nodes of `l` in order and then arrives at `y`.

* `Links.update`: the pointer of one node is set to another chain. Insertion,
  removal and joining of nodes are cases of it.
* `seek`: the search loop with two pointers, `prev` and `cur`; `seek_eq` says
  where it stops.
-/

namespace Mboot.Common

variable {α : Type*} {next next' : α → α} {x y z : α} {l l' : List α}

/-- From `x`, following `next` visits exactly `l`, in order, and arrives at `y`. -/
def Links (next : α → α) : α → List α → α → Prop
  | x, [], y => x = y
  | x, a :: l, y => x = a ∧ Links next (next a) l y

theorem links_append :
    Links next x (l ++ l') z ↔ ∃ y, Links next x l y ∧ Links next y l' z := by
  induction l generalizing x with
  | nil => simp [Links]
  | cons a l ih => simp [Links, ih, and_assoc]

/-- Only the pointers of the nodes visited matter. -/
theorem Links.congr (h : Links next x l y) (hc : ∀ a ∈ l, next' a = next a) :
    Links next' x l y := by
  induction l generalizing x with
  | nil => exact h
  | cons a l ih =>
    refine ⟨h.1, ?_⟩
    rw [hc a List.mem_cons_self]
    exact ih h.2 fun b hb => hc b (List.mem_cons_of_mem a hb)

theorem Links.head_eq (h : Links next x l y) : x = l.headD y := by
  cases l with
  | nil => exact h
  | cons a l => exact h.1

/-- A chain that ends in a null pointer is determined by its head. -/
theorem Links.unique (h : Links next x l z) (h' : Links next x l' z) (hl : z ∉ l) (hl' : z ∉ l') :
    l = l' := by
  induction l generalizing x l' with
  | nil =>
    cases l' with
    | nil => rfl
    | cons b l' =>
      have hz : z = b := h.symm.trans h'.1
      exact absurd (hz ▸ List.mem_cons_self) hl'
  | cons a l ih =>
    cases l' with
    | nil =>
      have hz : z = a := h'.symm.trans h.1
      exact absurd (hz ▸ List.mem_cons_self) hl
    | cons b l' =>
      obtain ⟨rfl, h⟩ := h
      obtain ⟨rfl, h'⟩ := h'
      rw [ih h h' (fun hm => hl (List.mem_cons_of_mem _ hm)) fun hm =>
        hl' (List.mem_cons_of_mem _ hm)]

/-- The pointer of the node `a` is set to another chain. -/
theorem Links.update {pre : List α} {a : α} {y' : α} (h : Links next x (pre ++ a :: l) y)
    (ha : next' a = z) (htail : Links next z l' y') (hc : ∀ b ∈ pre ++ l', next' b = next b) :
    Links next' x (pre ++ a :: l') y' := by
  obtain ⟨u, hpre, hu, -⟩ := links_append.mp h
  refine links_append.mpr ⟨u, hpre.congr fun b hb => hc b (List.mem_append_left _ hb), hu, ?_⟩
  rw [ha]
  exact htail.congr fun b hb => hc b (List.mem_append_right _ hb)

/-! ## Searching -/

/-- `while (cur && !stop(cur)) { prev = cur; cur = cur->next; }`, for at most
    `fuel` tests of the condition: the two pointers at the end. -/
def seek [DecidableEq α] (null : α) (next : α → α) (stop : α → Bool) :
    ℕ → α → α → Option (α × α)
  | 0, _, _ => none
  | fuel + 1, prev, cur =>
    if cur = null ∨ stop cur = true then some (prev, cur)
    else seek null next stop fuel cur (next cur)

/-- The loop stops at the first node that meets the condition, or at the end. -/
theorem seek_eq [DecidableEq α] {null : α} {pre post : List α} (fuel : ℕ) (prev : α)
    (stop : α → Bool) (h : Links next x (pre ++ post) null) (hnull : ∀ a ∈ pre, a ≠ null)
    (hpre : ∀ a ∈ pre, stop a = false) (hpost : ∀ a ∈ post.head?, stop a = true)
    (hfuel : pre.length < fuel) :
    seek null next stop fuel prev x = some (pre.getLastD prev, post.headD null) := by
  induction pre generalizing x prev fuel with
  | nil =>
    obtain ⟨fuel, rfl⟩ := Nat.exists_eq_succ_of_ne_zero (by simpa using hfuel.ne')
    cases post with
    | nil => simp [seek, h.head_eq]
    | cons a post => simp [seek, h.head_eq, hpost a rfl]
  | cons a pre ih =>
    obtain ⟨fuel, rfl⟩ := Nat.exists_eq_succ_of_ne_zero (Nat.ne_of_gt (Nat.zero_lt_of_lt hfuel))
    obtain ⟨rfl, hrest⟩ := h
    rw [seek, if_neg (by simp [hnull x, hpre x]), List.getLastD_cons]
    refine ih fuel x hrest (fun b hb => hnull b ?_) (fun b hb => hpre b ?_) (by simpa using hfuel)
    · exact List.mem_cons_of_mem x hb
    · exact List.mem_cons_of_mem x hb

end Mboot.Common
