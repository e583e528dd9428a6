import Mboot.Common.Slice

/-!
# Byte stores and little-endian words

A byte memory is a function from addresses to bytes. `store` overwrites a
range, `copy` moves one, `leBytes` and `leValue` convert between numbers and their little-endian
bytes, `load` and `storeWord` access words of any width, `storeWords` fills an
array of them.

Each operation comes with its frame rule: what lies outside the range written
is unchanged (`store_of_outside`, `slice_store_of_disjoint`,
`load_storeWord_of_disjoint`).
-/

namespace Mboot.Common

variable {α : Type*}

/-- `m` with the cells from `a` on overwritten by `bs`. -/
def store (m : ℕ → α) (a : ℕ) (bs : List α) : ℕ → α := fun x =>
  if h : a ≤ x ∧ x - a < bs.length then bs[x - a] else m x

theorem store_apply (m : ℕ → α) (a : ℕ) {bs : List α} {i : ℕ} (h : i < bs.length) :
    store m a bs (a + i) = bs[i] := by
  simp [store, h]

theorem store_of_outside (m : ℕ → α) {a x : ℕ} {bs : List α} (h : x < a ∨ a + bs.length ≤ x) :
    store m a bs x = m x := by
  rw [store, dif_neg (by omega)]

@[simp] theorem slice_store (m : ℕ → α) (a : ℕ) (bs : List α) :
    slice (store m a bs) a bs.length = bs := by
  apply List.ext_getElem
  · simp
  · intro i h1 h2
    rw [getElem_slice, store_apply m a h2]

theorem slice_store_of_disjoint (m : ℕ → α) {a b n : ℕ} {bs : List α}
    (h : b + n ≤ a ∨ a + bs.length ≤ b) : slice (store m a bs) b n = slice m b n :=
  slice_congr fun i hi => store_of_outside m (by omega)

/-- `m` with the `n` cells from `a` on set to `c`. -/
def fill (m : ℕ → α) (a : ℕ) (c : α) (n : ℕ) : ℕ → α := fun x =>
  if a ≤ x ∧ x < a + n then c else m x

theorem fill_of_outside (m : ℕ → α) {a x n : ℕ} (c : α) (h : x < a ∨ a + n ≤ x) :
    fill m a c n x = m x := by
  rw [fill, if_neg (by omega)]

theorem fill_of_inside (m : ℕ → α) {a x n : ℕ} (c : α) (h : a ≤ x) (h' : x < a + n) :
    fill m a c n x = c := by
  rw [fill, if_pos ⟨h, h'⟩]

/-- `m` with the `n` cells at `b` copied to `a`. -/
def copy (m : ℕ → α) (a b n : ℕ) : ℕ → α := store m a (slice m b n)

theorem copy_apply (m : ℕ → α) (a b : ℕ) {n i : ℕ} (h : i < n) : copy m a b n (a + i) = m (b + i) := by
  rw [copy, store_apply m a (by rwa [length_slice]), getElem_slice]

theorem copy_of_outside (m : ℕ → α) {a x n : ℕ} (b : ℕ) (h : x < a ∨ a + n ≤ x) :
    copy m a b n x = m x :=
  store_of_outside m (by rwa [length_slice])

/-! ## Little-endian words -/

/-- The low `w` bytes of `n`, lowest first. -/
def leBytes : ℕ → ℕ → List UInt8
  | 0, _ => []
  | w + 1, n => UInt8.ofNat n :: leBytes w (n / 256)

/-- The number with the given bytes, lowest first. -/
def leValue : List UInt8 → ℕ
  | [] => 0
  | b :: bs => b.toNat + 256 * leValue bs

@[simp] theorem length_leBytes (w n : ℕ) : (leBytes w n).length = w := by
  induction w generalizing n with
  | zero => rfl
  | succ w ih => simp [leBytes, ih]

theorem leValue_leBytes (w n : ℕ) : leValue (leBytes w n) = n % 256 ^ w := by
  induction w generalizing n with
  | zero => simp [leBytes, leValue, Nat.mod_one]
  | succ w ih =>
    have hbyte : (UInt8.ofNat n).toNat = n % 256 := UInt8.toNat_ofNat'
    rw [leBytes, leValue, ih, hbyte, pow_succ', Nat.mod_mul]

theorem leValue_lt (bs : List UInt8) : leValue bs < 256 ^ bs.length := by
  induction bs with
  | nil => simp [leValue]
  | cons b bs ih =>
    have hb := b.toNat_lt
    rw [leValue, List.length_cons, pow_succ']
    omega

/-- The word of `w` bytes at `a`. -/
def load (w : ℕ) (m : ℕ → UInt8) (a : ℕ) : ℕ := leValue (slice m a w)

/-- Write the low `w` bytes of `n` at `a`. -/
def storeWord (w : ℕ) (m : ℕ → UInt8) (a n : ℕ) : ℕ → UInt8 := store m a (leBytes w n)

theorem load_lt (w : ℕ) (m : ℕ → UInt8) (a : ℕ) : load w m a < 256 ^ w := by
  simpa [load] using leValue_lt (slice m a w)

theorem load_congr {w : ℕ} {m m' : ℕ → UInt8} {a : ℕ} (h : ∀ i < w, m (a + i) = m' (a + i)) :
    load w m a = load w m' a := by
  rw [load, load, slice_congr h]

theorem load_storeWord (w : ℕ) (m : ℕ → UInt8) (a n : ℕ) :
    load w (storeWord w m a n) a = n % 256 ^ w := by
  have h := slice_store m a (leBytes w n)
  rw [length_leBytes] at h
  rw [load, storeWord, h, leValue_leBytes]

theorem storeWord_of_outside {w : ℕ} (m : ℕ → UInt8) {a x : ℕ} (n : ℕ) (h : x < a ∨ a + w ≤ x) :
    storeWord w m a n x = m x :=
  store_of_outside m (by rwa [length_leBytes])

theorem load_store_of_disjoint {w : ℕ} (m : ℕ → UInt8) {a b : ℕ} {bs : List UInt8}
    (h : b + w ≤ a ∨ a + bs.length ≤ b) : load w (store m a bs) b = load w m b := by
  rw [load, load, slice_store_of_disjoint m h]

theorem load_storeWord_of_disjoint {w w' : ℕ} (m : ℕ → UInt8) {a b : ℕ} (n : ℕ)
    (h : b + w' ≤ a ∨ a + w ≤ b) : load w' (storeWord w m a n) b = load w' m b :=
  load_store_of_disjoint m (by rwa [length_leBytes])

/-! ## Arrays of words -/

/-- The array of `w`-byte words at `a` filled with `f 0, …, f (n - 1)`. -/
def storeWords (w : ℕ) (m : ℕ → UInt8) (a : ℕ) (f : ℕ → ℕ) : ℕ → ℕ → UInt8
  | 0 => m
  | n + 1 => storeWord w (storeWords w m a f n) (a + w * n) (f n)

theorem storeWords_of_outside {w : ℕ} (m : ℕ → UInt8) {a x : ℕ} (f : ℕ → ℕ) {n : ℕ}
    (h : x < a ∨ a + w * n ≤ x) : storeWords w m a f n x = m x := by
  induction n with
  | zero => rfl
  | succ n ih =>
    rw [mul_add, mul_one] at h
    rw [storeWords, storeWord_of_outside _ _ (by omega), ih (by omega)]

theorem load_storeWords {w : ℕ} (m : ℕ → UInt8) (a : ℕ) (f : ℕ → ℕ) {n i : ℕ} (h : i < n) :
    load w (storeWords w m a f n) (a + w * i) = f i % 256 ^ w := by
  induction n with
  | zero => omega
  | succ n ih =>
    rw [storeWords]
    obtain rfl | hlt := Nat.lt_succ_iff_lt_or_eq.mp h |>.symm
    · exact load_storeWord w _ _ _
    · have hstep : w * i + w ≤ w * n := by
        rw [← Nat.mul_succ]
        exact Nat.mul_le_mul_left w hlt
      rw [load_storeWord_of_disjoint _ _ (by omega), ih hlt]

/-- The words `ws` lie at `a` and behind it, each modulo its width. -/
def WordsAt (w : ℕ) (m : ℕ → UInt8) (a : ℕ) (ws : List ℕ) : Prop :=
  ∀ i < ws.length, load w m (a + w * i) = ws.getD i 0 % 256 ^ w

theorem WordsAt.nil (w : ℕ) (m : ℕ → UInt8) (a : ℕ) : WordsAt w m a [] :=
  fun i hi => absurd hi (Nat.not_lt_zero i)

theorem WordsAt.congr {w a : ℕ} {m m' : ℕ → UInt8} {ws : List ℕ} (h : WordsAt w m a ws)
    (hm : ∀ x, a ≤ x → x < a + w * ws.length → m' x = m x) : WordsAt w m' a ws := by
  intro i hi
  have hstep : w * i + w ≤ w * ws.length := by
    rw [← Nat.mul_succ]
    exact Nat.mul_le_mul_left w hi
  rw [load_congr fun k hk => hm _ (by omega) (by omega), h i hi]

/-- A word is pushed below the others. -/
theorem WordsAt.push {w a : ℕ} {m : ℕ → UInt8} {ws : List ℕ} (h : WordsAt w m a ws) (hw : w ≤ a)
    (n : ℕ) : WordsAt w (storeWord w m (a - w) n) (a - w) (n :: ws) := by
  intro i hi
  cases i with
  | zero =>
    rw [Nat.mul_zero, Nat.add_zero, load_storeWord]
    rfl
  | succ i =>
    have haddr : a - w + w * (i + 1) = a + w * i := by
      rw [Nat.mul_succ]
      omega
    rw [haddr, load_storeWord_of_disjoint _ _ (by omega), h i (Nat.lt_of_succ_lt_succ hi)]
    rfl

end Mboot.Common
