import Mathlib

/-!
# Rings of `next` pointers

A circular singly linked list is a function `next` together with the list of
its nodes in order. `Follows next x l y` says that following `next` from `x`
visits the nodes of `l` and then arrives at `y`; `IsRing next (x :: l)` says
that the walk from `x` through `l` closes at `x` without repeating a node.

* `IsRing.rotate`: a ring read from any of its nodes is a ring.
* `IsRing.insert`: linking a new node behind the head keeps the ring.
* `IsRing.rotate_of_mem`: the ring read from a node behind the head.
* `exists_eq_of_rank_lt`, `ne_of_rank_lt`: a sequence whose rank rises until it meets a
  value meets it soon, and does not come back to where it started before that.
-/

namespace Mboot.Common

variable {α : Type*}

/-- Following `next` from `x` visits exactly `l`, in order, before `y`. -/
def Follows (next : α → α) : α → List α → α → Prop
  | x, [], y => next x = y
  | x, a :: l, y => next x = a ∧ Follows next a l y

theorem follows_append {next : α → α} {x y z : α} :
    ∀ {l l' : List α}, Follows next x (l ++ y :: l') z ↔ Follows next x l y ∧ Follows next y l' z := by
  intro l
  induction l generalizing x with
  | nil => intro l'; simp [Follows]
  | cons a l ih => intro l'; simp [Follows, ih, and_assoc]

theorem Follows.congr {next next' : α → α} {x y : α} :
    ∀ {l : List α}, Follows next x l y → (∀ a ∈ x :: l, next' a = next a) → Follows next' x l y := by
  intro l
  induction l generalizing x with
  | nil => intro h hc; simpa [Follows, hc x (by simp)] using h
  | cons a l ih =>
    intro h hc
    refine ⟨(hc x (by simp)).trans h.1, ih h.2 fun b hb => hc b (List.mem_cons_of_mem _ hb)⟩

/-- `l` lists, in order, the nodes of a ring of `next` pointers. -/
def IsRing (next : α → α) : List α → Prop
  | [] => False
  | x :: l => Follows next x l x ∧ (x :: l).Nodup

/-- The ring read from a node behind the head: what follows the node, then the head, then
    what is between them. -/
theorem IsRing.rotate_of_mem {next : α → α} {x y : α} {l₁ l₂ : List α}
    (h : IsRing next (x :: (l₁ ++ y :: l₂))) : IsRing next (y :: (l₂ ++ x :: l₁)) := by
  obtain ⟨h₁, h₂⟩ := follows_append.mp h.1
  have hperm : (y :: l₂ ++ x :: l₁).Perm (x :: l₁ ++ y :: l₂) := List.perm_append_comm
  exact ⟨follows_append.mpr ⟨h₂, h₁⟩, hperm.nodup_iff.mpr h.2⟩

/-- A ring can be read starting from any of its nodes. -/
theorem IsRing.rotate {next : α → α} {l : List α} {y : α} (h : IsRing next l) (hy : y ∈ l) :
    ∃ l', IsRing next (y :: l') ∧ (y :: l').Perm l := by
  cases l with
  | nil => simp at hy
  | cons x l =>
    rcases List.mem_cons.mp hy with rfl | hy
    · exact ⟨l, h, List.Perm.refl _⟩
    · obtain ⟨l₁, l₂, rfl⟩ := List.append_of_mem hy
      have hperm : (y :: l₂ ++ x :: l₁).Perm (x :: l₁ ++ y :: l₂) := List.perm_append_comm
      exact ⟨l₂ ++ x :: l₁, h.rotate_of_mem, hperm⟩

/-- Linking a new node `b` right behind the head `x`:
    `b->next = x->next; x->next = b`. -/
theorem IsRing.insert [DecidableEq α] {next : α → α} {x b : α} {l : List α}
    (h : IsRing next (x :: l)) (hb : b ∉ x :: l) :
    IsRing (Function.update (Function.update next b (next x)) x b) (x :: b :: l) := by
  obtain ⟨hp, hn⟩ := h
  have hbx : b ≠ x := fun e => hb (by simp [e])
  refine ⟨⟨by simp, ?_⟩, ?_⟩
  · cases l with
    | nil => simpa [Follows, Function.update_of_ne hbx] using hp
    | cons a l =>
      refine ⟨by simp [Function.update_of_ne hbx, hp.1], hp.2.congr fun c hc => ?_⟩
      have hcx : c ≠ x := by rintro rfl; exact (List.nodup_cons.mp hn).1 hc
      have hcb : c ≠ b := by rintro rfl; exact hb (List.mem_cons_of_mem _ hc)
      rw [Function.update_of_ne hcx, Function.update_of_ne hcb]
  · have hperm : (x :: b :: l).Perm (b :: x :: l) := List.Perm.swap b x l
    exact hperm.nodup_iff.mpr (List.nodup_cons.mpr ⟨hb, hn⟩)

/-! ## Ranks -/

section Rank

variable (σ : ℕ → α) (rank : α → ℕ) {t : α} {a b : ℕ}

theorem rank_lt_of_rises (h : ∀ k, a ≤ k → k < b → rank (σ k) < rank (σ (k + 1))) (hab : a < b) :
    rank (σ a) + (b - a) ≤ rank (σ b) := by
  induction b, hab using Nat.le_induction with
  | base =>
    have hfirst := h a le_rfl (Nat.lt_succ_self a)
    rw [Nat.succ_eq_add_one]
    omega
  | succ b hab ih =>
    have hrest := ih fun k hk hkb => h k hk (by omega)
    have hlast := h b (by omega) (Nat.lt_succ_self b)
    omega

/-- Until the value is met, the sequence does not come back. -/
theorem ne_of_rank_lt (h : ∀ k, a ≤ k → k < b → σ (k + 1) = t ∨ rank (σ k) < rank (σ (k + 1)))
    (hnot : ∀ k, a < k → k ≤ b → σ k ≠ t) (hab : a < b) : σ b ≠ σ a := by
  intro heq
  have hrise := rank_lt_of_rises σ rank
    (fun k hk hkb => (h k hk hkb).resolve_left (hnot (k + 1) (by omega) (by omega))) hab
  rw [heq] at hrise
  omega

/-- With ranks below `n`, the value is met within `n` steps. -/
theorem exists_eq_of_rank_lt {n : ℕ} (hn : 0 < n) (hrank : ∀ k ≤ n, rank (σ k) < n)
    (h : ∀ k < n, (∀ j, 1 ≤ j → j ≤ k → σ j ≠ t) →
      σ (k + 1) = t ∨ rank (σ k) < rank (σ (k + 1))) :
    ∃ k, 1 ≤ k ∧ k ≤ n ∧ σ k = t := by
  by_contra hnone
  push Not at hnone
  have hrise : rank (σ 0) + (n - 0) ≤ rank (σ n) := by
    refine rank_lt_of_rises σ rank (fun k _ hk => ?_) hn
    exact (h k hk fun j h1 hj => hnone j h1 (by omega)).resolve_left
      (hnone (k + 1) (by omega) (by omega))
  have hlt := hrank n le_rfl
  omega

end Rank

end Mboot.Common
