import Mathlib

/-!
# Circular buffers as queues

A circular buffer has `cap` slots, the index `head` of its oldest entry and the
number `count` of its entries. `ringContents` lists the entries, oldest first:

* `ringContents_push`: filling the slot behind the last entry appends to the
  list;
* `ringContents_pop`: moving the head on removes the first entry.
-/

namespace Mboot.Common

variable {α : Type*} {cap head count : ℕ} {slots slots' : ℕ → α}

/-- The entries of a circular buffer, oldest first. -/
def ringContents (cap : ℕ) (slots : ℕ → α) (head count : ℕ) : List α :=
  (List.range count).map fun k => slots ((head + k) % cap)

@[simp] theorem length_ringContents : (ringContents cap slots head count).length = count := by
  simp [ringContents]

theorem ringContents_congr (h : ∀ k < count, slots' ((head + k) % cap) = slots ((head + k) % cap)) :
    ringContents cap slots' head count = ringContents cap slots head count := by
  apply List.map_congr_left
  intro k hk
  exact h k (List.mem_range.mp hk)

/-- Two entries less than one round apart are in different slots. -/
theorem mod_ne_of_lt_of_lt {j k : ℕ} (hjk : j < k) (hk : k < j + cap) : j % cap ≠ k % cap := by
  intro heq
  have hdvd : cap ∣ k - j := (Nat.modEq_iff_dvd' (by omega)).mp heq
  have hle := Nat.le_of_dvd (by omega) hdvd
  omega

/-- The slot behind the last entry is filled with `v`. -/
theorem ringContents_push {v : α} (hcount : count < cap) (hnew : slots' ((head + count) % cap) = v)
    (hold : ∀ k < cap, k ≠ (head + count) % cap → slots' k = slots k) :
    ringContents cap slots' head (count + 1) = ringContents cap slots head count ++ [v] := by
  have hcap : 0 < cap := by omega
  rw [ringContents, List.range_succ, List.map_append, List.map_singleton, hnew]
  congr 1
  apply List.map_congr_left
  intro k hk
  have hlt := List.mem_range.mp hk
  exact hold _ (Nat.mod_lt _ hcap) (mod_ne_of_lt_of_lt (by omega) (by omega))

/-- The oldest entry is taken out. -/
theorem ringContents_pop (hhead : head < cap) :
    ringContents cap slots head (count + 1) =
      slots head :: ringContents cap slots ((head + 1) % cap) count := by
  rw [ringContents, List.range_succ_eq_map, List.map_cons, Nat.add_zero, Nat.mod_eq_of_lt hhead,
    List.map_map]
  congr 1
  apply List.map_congr_left
  intro k _
  show slots ((head + (k + 1)) % cap) = slots (((head + 1) % cap + k) % cap)
  rw [Nat.mod_add_mod, Nat.add_assoc, Nat.add_comm 1 k]

end Mboot.Common
