import Mboot.Common.FirstDifference
import Mboot.Libc.Printf

/-!
# Comparing strings

Model of `strcmp`, `memcmp`, `strncmp` and `strcoll` (`user/src/libc.c`, lines 192–198,
294–302, 459–467 and 483). A pointer is given by the bytes from it on. `char` is signed on
the target: `memcmp` reads bytes as `uint8_t`, the others subtract plain `char`s.

`lexSign` is the lexicographic order by unsigned byte value.

* `comparisons_order_alike_iff`: `memcmp` on the bytes up to the first terminator has that
  order, and each of the others has it on exactly the strings whose first difference is
  between two ASCII bytes or between two bytes above them.
* `comparisons_disagree`: the strings `"\x80"` and `"a"`.
-/

namespace Mboot.Libc

open Mboot.Common

/-! ## Model -/

/-- The bytes from a pointer to a string on. What follows the terminator is arbitrary. -/
structure StringPtr where
  char : ℕ → UInt8
  length : ℕ
  terminated : Terminated char 0 length

theorem CString.terminated (s : CString) :
    Terminated (fun i => s.bytes.getD i 0) 0 s.bytes.length where
  stop := by simp
  before := by
    intro i hi h
    rw [List.getD_eq_getElem _ _ hi] at h
    exact s.nul_free (h ▸ List.getElem_mem hi)

/-- A string with zeros behind it. -/
def CString.ptr (s : CString) : StringPtr where
  char i := s.bytes.getD i 0
  length := s.bytes.length
  terminated := s.terminated

/-- A plain `char` converted to `int`. -/
def charInt (c : UInt8) : ℤ := c.toBitVec.toInt

/-- The loop of `memcmp` with `n` iterations left. -/
def memcmpLoop (p1 p2 : ℕ → UInt8) : ℕ → ℕ → ℤ
  | 0, _ => 0
  | n + 1, i =>
    if p1 i ≠ p2 i then ((p1 i).toNat : ℤ) - (p2 i).toNat else memcmpLoop p1 p2 n (i + 1)

/-- `memcmp` (lines 294–302). -/
def memcmp (s1 s2 : ℕ → UInt8) (n : ℕ) : ℤ := memcmpLoop s1 s2 n 0

/-- The loop of `strncmp` with `n` iterations left. -/
def strncmpLoop (s1 s2 : ℕ → UInt8) : ℕ → ℕ → ℤ
  | 0, _ => 0
  | n + 1, i =>
    if s1 i ≠ s2 i then charInt (s1 i) - charInt (s2 i)
    else if s1 i = 0 then 0
    else strncmpLoop s1 s2 n (i + 1)

/-- `strncmp` (lines 459–467). -/
def strncmp (s1 s2 : ℕ → UInt8) (n : ℕ) : ℤ := strncmpLoop s1 s2 n 0

theorem StringPtr.lt_length (s : StringPtr) {i : ℕ} (hi : i ≤ s.length) (h : s.char i ≠ 0) :
    i < s.length := by
  apply hi.lt_of_ne
  rintro rfl
  exact h s.terminated.stop

/-- The loop of `strcmp` with both pointers advanced by `i`. The first of them stays inside
    its string. -/
def strcmpLoop (str1 : StringPtr) (str2 : ℕ → UInt8) (i : ℕ) (hi : i ≤ str1.length) : ℤ :=
  if h : str1.char i ≠ 0 ∧ str1.char i = str2 i then
    strcmpLoop str1 str2 (i + 1) (str1.lt_length hi h.1)
  else charInt (str1.char i) - charInt (str2 i)
termination_by str1.length - i
decreasing_by exact Nat.sub_succ_lt_self _ _ (str1.lt_length hi h.1)

/-- `strcmp` (lines 192–198). -/
def strcmp (str1 : StringPtr) (str2 : ℕ → UInt8) : ℤ := strcmpLoop str1 str2 0 (Nat.zero_le _)

/-- `strcoll` (line 483). -/
def strcoll (s1 : StringPtr) (s2 : ℕ → UInt8) : ℤ := strcmp s1 s2

/-! ## The order by unsigned byte value -/

/-- The values of the bytes of a string. -/
def StringPtr.values (s : StringPtr) : List ℕ := slice (UInt8.toNat ∘ s.char) 0 s.length

/-- The sign of the lexicographic comparison by unsigned byte value. -/
def lexSign (s t : StringPtr) : ℤ :=
  if s.values < t.values then -1 else if t.values < s.values then 1 else 0

/-- Two bytes are both ASCII or both above. -/
def SameHalf (c d : UInt8) : Prop := c < 0x80 ↔ d < 0x80

/-- Where the strings differ for the first time, a terminator included, the bytes are in the
    same half. -/
def DifferWithinHalf (s t : StringPtr) : Prop :=
  ∀ k ≤ s.length, FirstDiff s.char t.char k → SameHalf (s.char k) (t.char k)

/-! ## The functions at the first difference -/

section FirstDiff

variable {p q : ℕ → UInt8} {k : ℕ}

theorem memcmpLoop_of_firstDiff (h : FirstDiff p q k) {n i : ℕ} (hi : i ≤ k) (hn : k < i + n) :
    memcmpLoop p q n i = ((p k).toNat : ℤ) - (q k).toNat := by
  induction n generalizing i with
  | zero => omega
  | succ n ih =>
    rw [memcmpLoop]
    rcases hi.lt_or_eq with hlt | rfl
    · rw [if_neg (not_not.mpr (h.agree i hlt))]
      exact ih hlt (by omega)
    · rw [if_pos h.differ]

theorem memcmpLoop_of_agree {n i : ℕ} (h : ∀ j, i ≤ j → j < i + n → p j = q j) :
    memcmpLoop p q n i = 0 := by
  induction n generalizing i with
  | zero => rfl
  | succ n ih =>
    rw [memcmpLoop, if_neg (not_not.mpr (h i le_rfl (by omega)))]
    exact ih fun j hij hj => h j (by omega) (by omega)

theorem strncmpLoop_of_firstDiff (h : FirstDiff p q k) (hp : ∀ i < k, p i ≠ 0) {n i : ℕ}
    (hi : i ≤ k) (hn : k < i + n) : strncmpLoop p q n i = charInt (p k) - charInt (q k) := by
  induction n generalizing i with
  | zero => omega
  | succ n ih =>
    rw [strncmpLoop]
    rcases hi.lt_or_eq with hlt | rfl
    · rw [if_neg (not_not.mpr (h.agree i hlt)), if_neg (hp i hlt)]
      exact ih hlt (by omega)
    · rw [if_pos h.differ]

/-- Up to the terminator, strings that agree compare equal, however many bytes are asked
    for. -/
theorem strncmpLoop_of_agree {m : ℕ} (hm : p m = 0) (h : ∀ j ≤ m, p j = q j) {n i : ℕ}
    (hi : i ≤ m) : strncmpLoop p q n i = 0 := by
  induction n generalizing i with
  | zero => rfl
  | succ n ih =>
    rw [strncmpLoop, if_neg (not_not.mpr (h i hi))]
    split_ifs with hz
    · rfl
    · apply ih
      apply Nat.succ_le_of_lt
      apply hi.lt_of_ne
      rintro rfl
      exact hz hm

theorem strcmpLoop_of_firstDiff {s : StringPtr} (h : FirstDiff s.char q k) (hk : k ≤ s.length)
    {i : ℕ} (hi : i ≤ k) :
    strcmpLoop s q i (hi.trans hk) = charInt (s.char k) - charInt (q k) := by
  induction hd : k - i generalizing i with
  | zero =>
    obtain rfl : i = k := by omega
    rw [strcmpLoop, dif_neg fun hc => h.differ hc.2]
  | succ d ih =>
    have hlt : i < k := by omega
    rw [strcmpLoop, dif_pos ⟨s.terminated.before i (hlt.trans_le hk), h.agree i hlt⟩]
    exact ih hlt (by omega)

theorem strcmpLoop_of_agree {s : StringPtr} (h : ∀ j ≤ s.length, s.char j = q j) {i : ℕ}
    (hi : i ≤ s.length) : strcmpLoop s q i hi = 0 := by
  induction hd : s.length - i generalizing i with
  | zero =>
    obtain rfl : i = s.length := by omega
    rw [strcmpLoop, dif_neg fun hc => hc.1 s.terminated.stop, h _ le_rfl, sub_self]
  | succ d ih =>
    have hlt : i < s.length := by omega
    rw [strcmpLoop, dif_pos ⟨s.terminated.before i hlt, h i hi⟩]
    exact ih hlt (by omega)

end FirstDiff

/-! ## Signed and unsigned bytes -/

theorem byteValue_injective : Function.Injective UInt8.toNat := fun _ _ => UInt8.toNat_inj.mp

theorem ascii_iff (c : UInt8) : c < 0x80 ↔ c.toNat < 128 := UInt8.lt_iff_toNat_lt

theorem charInt_eq (c : UInt8) :
    charInt c = if c.toNat < 128 then (c.toNat : ℤ) else c.toNat - 256 := by
  rw [charInt, BitVec.toInt_eq_toNat_cond]
  show (if 2 * c.toNat < 2 ^ 8 then (c.toNat : ℤ) else c.toNat - (2 ^ 8 : ℕ)) = _
  split_ifs <;> omega

/-- Across the halves the signed order is the reverse of the unsigned one. -/
theorem sign_charInt_sub_iff (c d : UInt8) :
    (charInt c - charInt d).sign = ((c.toNat : ℤ) - d.toNat).sign ↔ SameHalf c d := by
  have hc := c.toNat_lt
  have hd := d.toNat_lt
  rw [charInt_eq, charInt_eq, SameHalf, ascii_iff, ascii_iff]
  by_cases hlc : c.toNat < 128 <;> by_cases hld : d.toNat < 128
  · simp [hlc, hld]
  · rw [if_pos hlc, if_neg hld, Int.sign_eq_one_of_pos (by omega),
      Int.sign_eq_neg_one_of_neg (by omega)]
    exact iff_of_false (by decide) fun hiff => hld (hiff.mp hlc)
  · rw [if_neg hlc, if_pos hld, Int.sign_eq_neg_one_of_neg (by omega),
      Int.sign_eq_one_of_pos (by omega)]
    exact iff_of_false (by decide) fun hiff => hlc (hiff.mpr hld)
  · simp [hlc, hld]

/-! ## The order of two strings -/

section Order

variable {s t : StringPtr} {k : ℕ}

theorem values_lt_iff (h : FirstDiff s.char t.char k) (hk : k ≤ s.length) :
    s.values < t.values ↔ (s.char k).toNat < (t.char k).toNat :=
  (h.comp byteValue_injective).slice_lt_slice_iff Nat.zero_le
    (s.terminated.comp byteValue_injective) (t.terminated.comp byteValue_injective) hk

theorem lexSign_of_firstDiff (h : FirstDiff s.char t.char k) (hk : k ≤ s.length) :
    lexSign s t = (((s.char k).toNat : ℤ) - (t.char k).toNat).sign := by
  have hkt := h.le_of_le s.terminated t.terminated hk
  have hne : (s.char k).toNat ≠ (t.char k).toNat := (h.comp byteValue_injective).differ
  rw [lexSign]
  simp only [values_lt_iff h hk, values_lt_iff h.symm hkt]
  rcases hne.lt_or_gt with hlt | hgt
  · rw [if_pos hlt, Int.sign_eq_neg_one_of_neg (by omega)]
  · rw [if_neg hgt.not_gt, if_pos hgt, Int.sign_eq_one_of_pos (by omega)]

theorem lexSign_of_agree (hlen : s.length = t.length) (h : ∀ i ≤ s.length, s.char i = t.char i) :
    lexSign s t = 0 := by
  have hvalues : s.values = t.values := by
    rw [StringPtr.values, StringPtr.values, ← hlen]
    apply slice_congr
    intro i hi
    exact congrArg UInt8.toNat (h _ (by omega))
  rw [lexSign, hvalues, if_neg (List.lt_irrefl _), if_neg (List.lt_irrefl _)]

/-- `strcmp` has the order by unsigned byte value on strings that differ within a half. -/
theorem sign_strcmp_iff (s t : StringPtr) :
    (strcmp s t.char).sign = lexSign s t ↔ DifferWithinHalf s t := by
  rcases s.terminated.same_or_firstDiff t.terminated with ⟨hlen, hagree⟩ | ⟨k, hk, h⟩
  · rw [strcmp, strcmpLoop_of_agree hagree, lexSign_of_agree hlen hagree]
    refine iff_of_true rfl ?_
    intro k hk h
    exact absurd (hagree k hk) h.differ
  · rw [strcmp, strcmpLoop_of_firstDiff h hk (Nat.zero_le k), lexSign_of_firstDiff h hk,
      sign_charInt_sub_iff]
    constructor
    · intro hhalf l _ hl
      exact hl.unique h ▸ hhalf
    · intro hhalf
      exact hhalf k hk h

/-- With a count that covers both strings `strncmp` is `strcmp`. -/
theorem strncmp_eq_strcmp {n : ℕ} (hs : s.length ≤ n) (ht : t.length ≤ n) :
    strncmp s.char t.char n = strcmp s t.char := by
  rcases s.terminated.same_or_firstDiff t.terminated with ⟨-, hagree⟩ | ⟨k, hk, h⟩
  · rw [strncmp, strncmpLoop_of_agree s.terminated.stop hagree (Nat.zero_le _), strcmp,
      strcmpLoop_of_agree hagree]
  · have hkn := h.lt_of_le s.terminated t.terminated hk hs ht
    have hnonzero : ∀ i < k, s.char i ≠ 0 := fun i hi => s.terminated.before i (hi.trans_le hk)
    rw [strncmp, strncmpLoop_of_firstDiff h hnonzero (Nat.zero_le k) (by omega), strcmp,
      strcmpLoop_of_firstDiff h hk (Nat.zero_le k)]

/-- `memcmp` on the bytes up to the first terminator has the order by unsigned byte value. -/
theorem sign_memcmp (s t : StringPtr) :
    (memcmp s.char t.char (min s.length t.length + 1)).sign = lexSign s t := by
  rcases s.terminated.same_or_firstDiff t.terminated with ⟨hlen, hagree⟩ | ⟨k, hk, h⟩
  · rw [memcmp, memcmpLoop_of_agree fun j _ hj => hagree j (by omega),
      lexSign_of_agree hlen hagree, Int.sign_zero]
  · have hkt := h.le_of_le s.terminated t.terminated hk
    rw [memcmp, memcmpLoop_of_firstDiff h (Nat.zero_le k) (by omega), lexSign_of_firstDiff h hk]

end Order

/-! ## Main results -/

theorem comparisons_order_alike_iff (s t : StringPtr) :
    (memcmp s.char t.char (min s.length t.length + 1)).sign = lexSign s t ∧
    ((strcmp s t.char).sign = lexSign s t ↔ DifferWithinHalf s t) ∧
    ((strcoll s t.char).sign = lexSign s t ↔ DifferWithinHalf s t) ∧
    ∀ n, s.length ≤ n → t.length ≤ n →
      ((strncmp s.char t.char n).sign = lexSign s t ↔ DifferWithinHalf s t) := by
  refine ⟨sign_memcmp s t, sign_strcmp_iff s t, sign_strcmp_iff s t, ?_⟩
  intro n hs ht
  rw [strncmp_eq_strcmp hs ht]
  exact sign_strcmp_iff s t

/-- The string of one character. -/
def singleChar (c : UInt8) (hc : c ≠ 0) : CString where
  bytes := [c]
  nul_free h := hc (List.mem_singleton.mp h).symm

/-- Two strings above ASCII. -/
theorem comparisons_order_alike_high :
    ∃ s t : StringPtr, s.values = [0x80] ∧ t.values = [0x81] ∧ DifferWithinHalf s t ∧
      (strcmp s t.char).sign = lexSign s t ∧ (strncmp s.char t.char 1).sign = lexSign s t := by
  let s := (singleChar 0x80 (by decide)).ptr
  let t := (singleChar 0x81 (by decide)).ptr
  have hhalf : DifferWithinHalf s t := by
    intro k hk h
    have hkn : k < 1 := h.lt_of_le s.terminated t.terminated hk le_rfl le_rfl
    obtain rfl : k = 0 := by omega
    show (0x80 : UInt8) < 0x80 ↔ (0x81 : UInt8) < 0x80
    decide
  obtain ⟨-, hstrcmp, -, hstrncmp⟩ := comparisons_order_alike_iff s t
  exact ⟨s, t, rfl, rfl, hhalf, hstrcmp.mpr hhalf, (hstrncmp 1 le_rfl le_rfl).mpr hhalf⟩

theorem comparisons_disagree :
    ∃ s t : StringPtr, s.values = [0x80] ∧ t.values = [0x61] ∧
      lexSign s t = 1 ∧ (memcmp s.char t.char (min s.length t.length + 1)).sign = 1 ∧
      (strcmp s t.char).sign = -1 ∧ (strcoll s t.char).sign = -1 ∧
      s.length ≤ 1 ∧ t.length ≤ 1 ∧ (strncmp s.char t.char 1).sign = -1 := by
  let s := (singleChar 0x80 (by decide)).ptr
  let t := (singleChar 0x61 (by decide)).ptr
  have hdiff : FirstDiff s.char t.char 0 := ⟨fun i hi => absurd hi (Nat.not_lt_zero i), by decide⟩
  have hlex : lexSign s t = 1 := lexSign_of_firstDiff hdiff (Nat.zero_le _)
  have hstrcmp : (strcmp s t.char).sign = -1 := by
    rw [strcmp, strcmpLoop_of_firstDiff hdiff (Nat.zero_le _) le_rfl]
    decide
  have hstrncmp : strncmp s.char t.char 1 = strcmp s t.char := strncmp_eq_strcmp le_rfl le_rfl
  refine ⟨s, t, rfl, rfl, hlex, (sign_memcmp s t).trans hlex, hstrcmp, hstrcmp, le_rfl, le_rfl, ?_⟩
  rw [hstrncmp]
  exact hstrcmp

end Mboot.Libc
