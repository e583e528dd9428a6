import Mboot.Common.Memory

/-!
# A stack of words

`pushAll w m sp ws` pushes the words of `ws`, each `w` bytes wide, on a stack
that grows down from `sp`.

* `pushAll_words`: the words lie below `sp`, the last one lowest, in front of
  what was there.
* `pushAll_of_outside`: nothing else changes.
-/

namespace Mboot.Common

/-- `m` after pushing `ws` on the stack with its top at `sp`, the first word
    first. -/
def pushAll (w : ℕ) (m : ℕ → UInt8) (sp : ℕ) : List ℕ → ℕ → UInt8
  | [] => m
  | n :: ws => pushAll w (storeWord w m (sp - w) n) (sp - w) ws

theorem pushAll_append {w : ℕ} (m : ℕ → UInt8) (sp : ℕ) (ws vs : List ℕ) :
    pushAll w m sp (ws ++ vs) = pushAll w (pushAll w m sp ws) (sp - w * ws.length) vs := by
  induction ws generalizing m sp with
  | nil => rfl
  | cons n ws ih =>
    rw [List.cons_append, pushAll, ih, pushAll, List.length_cons, Nat.mul_succ, Nat.add_comm,
      ← Nat.sub_sub]

theorem pushAll_words {w sp : ℕ} {m : ℕ → UInt8} {old : List ℕ} (ws : List ℕ)
    (hroom : w * ws.length ≤ sp) (hold : WordsAt w m sp old) :
    WordsAt w (pushAll w m sp ws) (sp - w * ws.length) (ws.reverse ++ old) := by
  induction ws generalizing m sp old with
  | nil => simpa [pushAll] using hold
  | cons n ws ih =>
    rw [List.length_cons, Nat.mul_succ] at hroom
    have hrest := ih (by omega) (hold.push (by omega) n)
    rw [pushAll, List.length_cons, Nat.mul_succ, List.reverse_cons, List.append_assoc,
      List.singleton_append, Nat.add_comm, ← Nat.sub_sub]
    exact hrest

theorem pushAll_of_outside {w sp x : ℕ} (m : ℕ → UInt8) {ws : List ℕ} (hroom : w * ws.length ≤ sp)
    (h : x < sp - w * ws.length ∨ sp ≤ x) : pushAll w m sp ws x = m x := by
  induction ws generalizing m sp with
  | nil => rfl
  | cons n ws ih =>
    rw [List.length_cons, Nat.mul_succ] at hroom h
    rw [pushAll, ih _ (by omega) (by omega), storeWord_of_outside m n (by omega)]

end Mboot.Common
