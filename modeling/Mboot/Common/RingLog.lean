import Mboot.Common.Fifo

/-!
# Rings shared by a producer and a consumer

A ring has `cap` slots; a slot is empty (`none`) or holds an entry. Entries are
numbered in the order in which they are put in, and entry `k` goes to slot
`k % cap`. `RingLog cap slots log lo`: of all entries `log` ever put in, those
before number `lo` have been taken out, and the ring holds the others, each in
its slot, and nothing else.

* `RingLog.push`, `RingLog.pop`: the two parties' moves.
* `RingLog.head`: the slot of number `lo` holds entry `lo`, or everything has
  been taken out.
* `RingLog.isSome_iff`: the occupied slots are those from `lo` up to the end of
  the log, modulo `cap`.
-/

namespace Mboot.Common

variable {α : Type*} {cap lo : ℕ} {slots slots' : ℕ → Option α} {log : List α}

structure RingLog (cap : ℕ) (slots : ℕ → Option α) (log : List α) (lo : ℕ) : Prop where
  le : lo ≤ log.length
  room : log.length ≤ lo + cap
  filled : ∀ k v, lo ≤ k → log[k]? = some v → slots (k % cap) = some v
  empty : ∀ i < cap, (∀ k, lo ≤ k → k < log.length → k % cap ≠ i) → slots i = none

theorem RingLog.nil (h : ∀ i < cap, slots i = none) : RingLog cap slots [] 0 where
  le := le_rfl
  room := Nat.zero_le _
  filled := by
    intro k v _ hv
    cases hv
  empty := fun i hi _ => h i hi

theorem RingLog.push (h : RingLog cap slots log lo) (hroom : log.length < lo + cap) {v : α}
    (hnew : slots' (log.length % cap) = some v)
    (hold : ∀ i < cap, i ≠ log.length % cap → slots' i = slots i) :
    RingLog cap slots' (log ++ [v]) lo := by
  have hle := h.le
  have hcap : 0 < cap := by omega
  refine ⟨?_, ?_, fun k w hlo hw => ?_, fun i hi hfree => ?_⟩
  · simp only [List.length_append, List.length_singleton]
    omega
  · simp only [List.length_append, List.length_singleton]
    omega
  · by_cases hk : k < log.length
    · rw [List.getElem?_append_left hk] at hw
      rw [hold _ (Nat.mod_lt _ hcap) (mod_ne_of_lt_of_lt hk (by omega))]
      exact h.filled k w hlo hw
    · rw [List.getElem?_append_right (by omega), List.getElem?_singleton] at hw
      split_ifs at hw with h0
      cases hw
      obtain rfl : k = log.length := by omega
      exact hnew
  · have hne : i ≠ log.length % cap := fun heq =>
      hfree log.length h.le (by simp) heq.symm
    rw [hold i hi hne]
    refine h.empty i hi fun k hlo hk => hfree k hlo ?_
    simp only [List.length_append, List.length_singleton]
    omega

theorem RingLog.pop (h : RingLog cap slots log lo) (hlt : lo < log.length)
    (hnew : slots' (lo % cap) = none) (hold : ∀ i < cap, i ≠ lo % cap → slots' i = slots i) :
    RingLog cap slots' log (lo + 1) := by
  have hroom := h.room
  have hcap : 0 < cap := by omega
  refine ⟨hlt, by omega, fun k w hlo hw => ?_, fun i hi hfree => ?_⟩
  · have hk : k < log.length := (List.getElem?_eq_some_iff.mp hw).1
    have hne : k % cap ≠ lo % cap := (mod_ne_of_lt_of_lt (by omega) (by omega)).symm
    rw [hold _ (Nat.mod_lt _ hcap) hne]
    exact h.filled k w (by omega) hw
  · by_cases heq : i = lo % cap
    · rw [heq]
      exact hnew
    · rw [hold i hi heq]
      refine h.empty i hi fun k hlo hk hki => ?_
      rcases Nat.lt_or_eq_of_le hlo with hlt' | rfl
      · exact hfree k hlt' hk hki
      · exact heq hki.symm

/-- The slot of number `lo` is empty exactly when everything has been taken out. -/
theorem RingLog.head (h : RingLog cap slots log lo) (hcap : 0 < cap) :
    slots (lo % cap) = log[lo]? := by
  cases hv : log[lo]? with
  | some v => exact h.filled lo v le_rfl hv
  | none =>
    have hle := List.getElem?_eq_none_iff.mp hv
    exact h.empty _ (Nat.mod_lt _ hcap) fun k hlo hk => by omega

/-- If the next slot is empty, there is room for an entry. -/
theorem RingLog.lt_of_none (h : RingLog cap slots log lo) (hcap : 0 < cap)
    (hnone : slots (log.length % cap) = none) : log.length < lo + cap := by
  by_contra hge
  have hroom := h.room
  have hlt : lo < log.length := by omega
  have hmod : log.length % cap = lo % cap := by
    rw [show log.length = lo + cap by omega, Nat.add_mod_right]
  rw [hmod, h.filled lo log[lo] le_rfl (List.getElem?_eq_getElem hlt)] at hnone
  cases hnone

/-- The occupied slots are those from `lo` up to the end of the log. -/
theorem RingLog.isSome_iff (h : RingLog cap slots log lo) (hroom : log.length < lo + cap) {i : ℕ}
    (hi : i < cap) :
    (slots i).isSome ↔ (i + cap - lo % cap) % cap < (log.length % cap + cap - lo % cap) % cap := by
  have hcap : 0 < cap := by omega
  have hle := h.le
  -- the distance of slot `i` from `lo`, in either direction of the equivalence
  have hdist : ∀ k, lo ≤ k → k < lo + cap → (k % cap + cap - lo % cap) % cap = k - lo := by
    intro k hlo hk
    have hmod : lo % cap < cap := Nat.mod_lt _ hcap
    obtain ⟨d, rfl⟩ : ∃ d, k = lo + d := ⟨k - lo, by omega⟩
    have hd : d < cap := by omega
    rw [Nat.add_mod, Nat.mod_eq_of_lt hd, Nat.add_sub_cancel_left]
    by_cases hwrap : lo % cap + d < cap
    · rw [Nat.mod_eq_of_lt hwrap, show lo % cap + d + cap - lo % cap = d + cap by omega,
        Nat.add_mod_right, Nat.mod_eq_of_lt hd]
    · have hsub : (lo % cap + d) % cap = lo % cap + d - cap := by
        rw [Nat.mod_eq_sub_mod (by omega), Nat.mod_eq_of_lt (by omega)]
      rw [hsub, show lo % cap + d - cap + cap - lo % cap = d by omega, Nat.mod_eq_of_lt hd]
  rw [hdist log.length hle hroom]
  constructor
  · intro hsome
    by_contra hge
    have hnone := h.empty i hi fun k hlo hk hki => by
      have := hdist k hlo (by omega)
      rw [hki] at this
      omega
    rw [hnone] at hsome
    cases hsome
  · intro hlt
    have hk : lo + (i + cap - lo % cap) % cap < log.length := by omega
    have hslot := h.filled _ _ (Nat.le_add_right _ _) (List.getElem?_eq_getElem hk)
    have hmod : lo % cap < cap := Nat.mod_lt _ hcap
    have heq : (lo + (i + cap - lo % cap) % cap) % cap = i := by
      rw [Nat.add_mod_mod, ← Nat.mod_add_mod, show lo % cap + (i + cap - lo % cap) = i + cap by omega,
        Nat.add_mod_right, Nat.mod_eq_of_lt hi]
    rw [heq] at hslot
    rw [hslot]
    rfl

end Mboot.Common
