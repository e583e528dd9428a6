import Mboot.Libc.Expansion
import Mboot.Libc.Strtol

/-!
# Integers, printed and read back

The string that `vsnprintf` makes of a 32-bit number is read back as that number by
`strtol` or `strtoul` in the same base, up to its terminator
(`printed_integers_read_back`). A number is printed as its digits, most significant first;
reading them is a left fold, which undoes `Nat.digits`.
-/

namespace Mboot.Libc

open Mboot.Common

theorem digitValue_digitChar (uppercase : Bool) {d : ℕ} (hd : d < 16) :
    digitValue (digitChar uppercase d) = some d := by
  interval_cases d <;> cases uppercase <;> decide

variable {base : ℕ}

theorem isBaseDigit_of_mem_numeral (hb : 2 ≤ base) (hb' : base ≤ 16) {uppercase : Bool} {n : ℕ}
    {c : UInt8} (hc : c ∈ numeral base uppercase n) : isBaseDigit base c = true := by
  rw [numeral] at hc
  split_ifs at hc
  · obtain rfl := List.mem_singleton.mp hc
    have hzero : digitValue 0x30 = some 0 := by decide
    simp [isBaseDigit, hzero]
    omega
  · obtain ⟨d, hd, rfl⟩ := List.mem_map.mp hc
    have hlt := Nat.digits_lt_base hb (List.mem_reverse.mp hd)
    simp [isBaseDigit, digitValue_digitChar uppercase (show d < 16 by omega), hlt]

/-- The left fold over digits, most significant first, is `Nat.ofDigits`. -/
theorem numeralValue_reverse (uppercase : Bool) {ds : List ℕ} (hds : ∀ d ∈ ds, d < 16) :
    numeralValue base (ds.reverse.map (digitChar uppercase)) = Nat.ofDigits base ds := by
  induction ds with
  | nil => rfl
  | cons d ds ih =>
    have hd := digitValue_digitChar uppercase (hds d (by simp))
    have hrest := ih fun e he => hds e (List.mem_cons_of_mem _ he)
    rw [numeralValue] at hrest ⊢
    rw [List.reverse_cons, List.map_append, List.foldl_append, hrest, Nat.ofDigits_cons]
    simp only [List.map_cons, List.map_nil, List.foldl_cons, List.foldl_nil, hd, Option.getD_some]
    ring

theorem numeralValue_numeral (hb : 2 ≤ base) (hb' : base ≤ 16) (uppercase : Bool) (n : ℕ) :
    numeralValue base (numeral base uppercase n) = n := by
  rw [numeral]
  split_ifs with hzero
  · have hdigit : digitValue 0x30 = some 0 := by decide
    simp [numeralValue, hdigit, hzero]
  · rw [numeralValue_reverse uppercase fun d hd => (Nat.digits_lt_base hb hd).trans_le hb',
      Nat.ofDigits_digits]

/-- A numeral is read to its end. -/
theorem digitLoop_numeral (hb : 2 ≤ base) (hb' : base ≤ 16) (uppercase : Bool) (n : ℕ) :
    digitLoop base 0 (numeral base uppercase n) = (BitVec.ofNat 32 n, []) := by
  have hall : ∀ c ∈ numeral base uppercase n, isBaseDigit base c = true :=
    fun c hc => isBaseDigit_of_mem_numeral hb hb' hc
  rw [digitLoop_zero, List.takeWhile_eq_self_iff.mpr hall, List.dropWhile_eq_nil_iff.mpr hall,
    numeralValue_numeral hb hb']

/-! ## Behind blanks, sign and prefix -/

/-- The blanks, the signs and the `x` of a prefix. -/
def markChars : List UInt8 := [0x20, 0x09, 0x0A, 0x0B, 0x0C, 0x0D, 0x2D, 0x2B, 0x78, 0x58]

theorem digitValue_markChars : ∀ c ∈ markChars, digitValue c = none := by decide +kernel

theorem notMem_markChars (hb : 2 ≤ base) (hb' : base ≤ 16) {uppercase : Bool} {n : ℕ} {c : UInt8}
    (hc : c ∈ numeral base uppercase n) : c ∉ markChars := by
  intro hmem
  have hdigit := isBaseDigit_of_mem_numeral hb hb' hc
  simp [isBaseDigit, digitValue_markChars c hmem] at hdigit

theorem isspace_of_notMem {c : UInt8} (hc : c ∉ markChars) : isspace c = false := by
  simp only [markChars, List.mem_cons, not_or] at hc
  simp [isspace, hc]

theorem numeral_ne_nil (base : ℕ) (uppercase : Bool) (n : ℕ) :
    numeral base uppercase n ≠ [] := by
  rw [numeral]
  split_ifs with hzero
  · exact List.cons_ne_nil _ _
  · simpa [Nat.digits_eq_nil_iff_eq_zero] using hzero

/-- A numeral as its first digit and the rest. -/
theorem exists_numeral_cons (hb : 2 ≤ base) (hb' : base ≤ 16) (uppercase : Bool) (n : ℕ) :
    ∃ c t, numeral base uppercase n = c :: t ∧ c ∉ markChars ∧ startsX t = false := by
  obtain ⟨c, t, ht⟩ := List.exists_cons_of_ne_nil (numeral_ne_nil base uppercase n)
  refine ⟨c, t, ht, notMem_markChars hb hb' (ht ▸ List.mem_cons_self), ?_⟩
  rw [Bool.eq_false_iff]
  intro hx
  obtain ⟨x, u, rfl, hxX⟩ := startsX_iff.mp hx
  have hmem : x ∈ numeral base uppercase n := by simp [ht]
  refine notMem_markChars hb hb' hmem ?_
  obtain rfl | rfl := hxX <;> decide

/-- In the bases 10 and 16 a numeral has no prefix. -/
theorem inferBase_numeral (hb : base = 10 ∨ base = 16) (uppercase : Bool) (n : ℕ) :
    inferBase base (numeral base uppercase n) = (base, numeral base uppercase n) := by
  obtain rfl | rfl := hb
  · rfl
  · obtain ⟨c, t, ht, -, hx⟩ :=
      exists_numeral_cons (show 2 ≤ 16 by decide) (by decide) uppercase n
    rw [ht, inferBase, if_neg (by decide), if_pos rfl, if_neg]
    rintro ⟨-, h⟩
    exact Bool.false_ne_true (hx.symm.trans h)

theorem strtoul_numeral (hb : base = 10 ∨ base = 16) (uppercase : Bool) (n : ℕ) :
    strtoul (numeral base uppercase n) base = (BitVec.ofNat 32 n, []) := by
  have hb2 : 2 ≤ base := by omega
  have hb16 : base ≤ 16 := by omega
  obtain ⟨c, t, ht, hc, -⟩ := exists_numeral_cons hb2 hb16 uppercase n
  have hspace : (numeral base uppercase n).dropWhile isspace = numeral base uppercase n := by
    rw [ht, List.dropWhile_cons_of_neg (by simp [isspace_of_notMem hc])]
  have hplus : skipByte 0x2B (numeral base uppercase n) = numeral base uppercase n := by
    rw [ht]
    exact if_neg fun h : c = 0x2B => hc (h ▸ by decide)
  rw [strtoul, hspace, hplus]
  simp only [inferBase_numeral hb, digitLoop_numeral hb2 hb16]

/-- A number printed with its sign is read back by `strtol`, the smallest one included. -/
theorem strtol_signedNumeral (n : BitVec 32) : strtol (signedNumeral n.toInt) 10 = (n, []) := by
  have hloop := digitLoop_numeral (show 2 ≤ 10 by decide) (by decide) false n.toInt.natAbs
  have hbase := inferBase_numeral (show 10 = 10 ∨ 10 = 16 from .inl rfl) false n.toInt.natAbs
  rw [signedNumeral]
  split_ifs with hneg
  · have hspace : (0x2D :: numeral 10 false n.toInt.natAbs).dropWhile isspace =
        0x2D :: numeral 10 false n.toInt.natAbs := List.dropWhile_cons_of_neg (by decide)
    have hsign : takeSign (0x2D :: numeral 10 false n.toInt.natAbs) =
        (true, numeral 10 false n.toInt.natAbs) := rfl
    simp only [strtol, hspace, hsign, hbase, hloop]
    rw [← toNat_neg_eq_natAbs hneg, BitVec.ofNat_toNat, BitVec.setWidth_eq, if_pos trivial,
      mul_neg_one, neg_neg]
  · obtain ⟨c, t, ht, hc, -⟩ :=
      exists_numeral_cons (show 2 ≤ 10 by decide) (by decide) false n.toInt.natAbs
    have hspace : (numeral 10 false n.toInt.natAbs).dropWhile isspace =
        numeral 10 false n.toInt.natAbs := by
      rw [ht, List.dropWhile_cons_of_neg (by simp [isspace_of_notMem hc])]
    have hsign : takeSign (numeral 10 false n.toInt.natAbs) =
        (false, numeral 10 false n.toInt.natAbs) := by
      rw [ht, takeSign, if_neg fun h : c = 0x2D => hc (h ▸ by decide),
        if_neg fun h : c = 0x2B => hc (h ▸ by decide)]
    simp only [strtol, hspace, hsign, hbase, hloop]
    rw [← toNat_eq_natAbs hneg, BitVec.ofNat_toNat, BitVec.setWidth_eq, if_neg Bool.false_ne_true,
      mul_one]

/-! ## The round trip -/

variable {R : Type} (ops : FloatOps R)

/-- The string of a single conversion whose text has no zero byte and fits. -/
theorem vsnprintf_single (k : Conv) (args : ℕ → VaArg R) (buf : ℕ → UInt8) {size : ℕ}
    (hzero : 0 ∉ k.text (args 0)) (hsize : (k.text (args 0)).length < size) :
    ∃ ret out, vsnprintf ops false buf size (formatOf [.conv noFlags k]) args = some (ret, out) ∧
      stringIn size out = k.text (args 0) := by
  have hexpand : expand args 0 [.conv noFlags k] = k.text (args 0) := List.append_nil _
  obtain ⟨sink, hsink, hrun⟩ := vsnprintf_pieces ops args [.conv noFlags k] buf size
  rw [hexpand] at hsink
  refine ⟨_, _, hrun, ?_⟩
  rw [hsink.stringIn (by omega) hzero, List.take_of_length_le (by omega)]

/-- What `vsnprintf` makes of a number with the conversion `k`, in any buffer that it fits
    in, `parse` reads back as the same 32 bits, with the end pointer at the terminator. -/
def ReadsBack (parse : List UInt8 → BitVec 32 × List UInt8) (k : Conv) : Prop :=
  ∀ (args : ℕ → VaArg R) (buf : ℕ → UInt8) (size : ℕ), (k.text (args 0)).length < size →
    ∃ ret out, vsnprintf ops false buf size (formatOf [.conv noFlags k]) args = some (ret, out) ∧
      parse (stringIn size out) = ((args 0).word, [])

theorem readsBack_of_text {parse : List UInt8 → BitVec 32 × List UInt8} {k : Conv}
    (hzero : ∀ arg : VaArg R, 0 ∉ k.text arg)
    (hparse : ∀ arg : VaArg R, parse (k.text arg) = (arg.word, [])) : ReadsBack ops parse k := by
  intro args buf size hsize
  obtain ⟨ret, out, hrun, hstring⟩ := vsnprintf_single ops k args buf (hzero _) hsize
  exact ⟨ret, out, hrun, by rw [hstring, hparse]⟩

/-- **Printing and reading integers are inverse**: `"%d"` and `strtol` in base 10, `"%u"`
    and `strtoul` in base 10, `"%x"` or `"%X"` and `strtoul` in base 16. -/
theorem printed_integers_read_back :
    ReadsBack ops (fun s => strtol s 10) .d ∧ ReadsBack ops (fun s => strtoul s 10) .u ∧
      ReadsBack ops (fun s => strtoul s 16) .x ∧ ReadsBack ops (fun s => strtoul s 16) .upperX := by
  have hword (n : BitVec 32) : BitVec.ofNat 32 n.toNat = n := by
    rw [BitVec.ofNat_toNat, BitVec.setWidth_eq]
  refine ⟨readsBack_of_text ops (fun arg => zero_notMem_signedNumeral _) fun arg =>
    strtol_signedNumeral _, ?_, ?_, ?_⟩
  · refine readsBack_of_text ops (fun arg => zero_notMem_numeral (by decide) (by decide) _ _) ?_
    intro arg
    exact (strtoul_numeral (.inl rfl) _ _).trans (by rw [hword])
  · refine readsBack_of_text ops (fun arg => zero_notMem_numeral (by decide) (by decide) _ _) ?_
    intro arg
    exact (strtoul_numeral (.inr rfl) _ _).trans (by rw [hword])
  · refine readsBack_of_text ops (fun arg => zero_notMem_numeral (by decide) (by decide) _ _) ?_
    intro arg
    exact (strtoul_numeral (.inr rfl) _ _).trans (by rw [hword])

/-- The smallest `int` in a buffer of 12 bytes, which it just fits. -/
theorem printed_intMin_reads_back : ∃ ret out,
    vsnprintf noFloat false (fun _ => 7) 12 (formatOf [.conv noFlags .d])
      (fun _ => ⟨0x80000000, none, ()⟩) = some (ret, out) ∧
    strtol (stringIn 12 out) 10 = (0x80000000, []) := by
  refine (printed_integers_read_back noFloat).1 (fun _ => ⟨0x80000000, none, ()⟩) (fun _ => 7) 12 ?_
  have hmin : (0x80000000#32).toInt = -2147483648 := by decide
  simp [Conv.text, hmin, signedNumeral, numeral]

end Mboot.Libc
