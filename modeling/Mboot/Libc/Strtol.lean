import Mboot.Libc.Printf

/-!
# Reading integers

Model of `strtol` and `strtoul` (`user/src/libc.c`, lines 1132–1213). The end pointer is
given by the text from it on. Both step over blanks, a sign and a prefix before they know
whether a digit follows, and never go back.

`subject` is the subject sequence of the C standard.

* `strtol_strtoul_exact_iff`: the texts on which value and end pointer are those of the
  subject sequence, for the bases 0, 8, 10 and 16.
* `strtol_strtoul_not_exact`: the texts `" "`, `"0x"` and `"-1"`.
-/

namespace Mboot.Libc

/-! ## Model -/

/-- `isspace` (lines 266–269). -/
def isspace (c : UInt8) : Bool :=
  c == 0x20 || c == 0x09 || c == 0x0A || c == 0x0B || c == 0x0C || c == 0x0D

/-- The digit a character stands for (lines 1159–1166 and 1197–1204). -/
def digitValue (c : UInt8) : Option ℕ :=
  if 0x30 ≤ c ∧ c ≤ 0x39 then some (c.toNat - 0x30)
  else if 0x61 ≤ c ∧ c ≤ 0x66 then some (c.toNat - 0x61 + 10)
  else if 0x41 ≤ c ∧ c ≤ 0x46 then some (c.toNat - 0x41 + 10)
  else none

/-- The text starts with `x` or `X`. -/
def startsX (s : List UInt8) : Bool := s.head? == some 0x78 || s.head? == some 0x58

/-- The sign of `strtol` (lines 1140–1144): whether it is negative, and the text behind
    it. -/
def takeSign : List UInt8 → Bool × List UInt8
  | [] => (false, [])
  | c :: s => if c = 0x2D then (true, s) else if c = 0x2B then (false, s) else (false, c :: s)

/-- The base and the prefix (lines 1145–1156 and 1183–1194). -/
def inferBase (base : ℕ) (s : List UInt8) : ℕ × List UInt8 :=
  if base = 0 then
    if s.head? = some 0x30 then
      if startsX s.tail then (16, s.drop 2) else (8, s.tail)
    else (10, s)
  else if base = 16 then
    if s.head? = some 0x30 ∧ startsX s.tail then (16, s.drop 2) else (16, s)
  else (base, s)

/-- The loop over the digits (lines 1157–1171 and 1195–1209). -/
def digitLoop (base : ℕ) (result : BitVec 32) : List UInt8 → BitVec 32 × List UInt8
  | [] => (result, [])
  | c :: s =>
    match digitValue c with
    | none => (result, c :: s)
    | some digit =>
      if digit ≥ base then (result, c :: s)
      else digitLoop base (result * BitVec.ofNat 32 base + BitVec.ofNat 32 digit) s

/-- `strtol` (lines 1132–1175): the value and the text at `*endptr`. -/
def strtol (nptr : List UInt8) (base : ℕ) : BitVec 32 × List UInt8 :=
  let (negative, s) := takeSign (nptr.dropWhile isspace)
  let (base, s) := inferBase base s
  let (result, s) := digitLoop base 0 s
  (result * if negative then -1 else 1, s)

/-- `strtoul` (lines 1177–1213), which has no case for `-`. -/
def strtoul (nptr : List UInt8) (base : ℕ) : BitVec 32 × List UInt8 :=
  let s := skipByte 0x2B (nptr.dropWhile isspace)
  let (base, s) := inferBase base s
  digitLoop base 0 s

/-! ## The subject sequence -/

/-- A digit of the base. -/
def isBaseDigit (base : ℕ) (c : UInt8) : Bool := (digitValue c).any (· < base)

/-- The text starts with a digit of the base. -/
def startsDigit (base : ℕ) (s : List UInt8) : Bool := s.head?.any (isBaseDigit base)

/-- The number that digits stand for. -/
def numeralValue (base : ℕ) (digits : List UInt8) : ℕ :=
  digits.foldl (fun n c => n * base + (digitValue c).getD 0) 0

/-- The base in force and the text from the first digit on: `0x` counts as a prefix only
    before a hexadecimal digit. -/
def subjectDigits (base : ℕ) (s : List UInt8) : ℕ × List UInt8 :=
  if (base = 0 ∨ base = 16) ∧ s.head? = some 0x30 ∧ startsX s.tail ∧ startsDigit 16 (s.drop 2) then
    (16, s.drop 2)
  else if base = 0 then (if s.head? = some 0x30 then 8 else 10, s)
  else (base, s)

/-- The value of the subject sequence and the text behind it; without a digit, 0 and the
    whole text. -/
def subject (base : ℕ) (nptr : List UInt8) : ℤ × List UInt8 :=
  let (negative, s) := takeSign (nptr.dropWhile isspace)
  let (base, s) := subjectDigits base s
  let value : ℤ := numeralValue base (s.takeWhile (isBaseDigit base))
  if startsDigit base s then
    (if negative then -value else value, s.dropWhile (isBaseDigit base))
  else (0, nptr)

/-! ## Digits -/

variable {base : ℕ} {s : List UInt8} {c : UInt8}

/-- The loop goes through the digits of the base and computes modulo `2 ^ 32`. -/
theorem digitLoop_eq (base n : ℕ) (s : List UInt8) :
    digitLoop base (BitVec.ofNat 32 n) s =
      (BitVec.ofNat 32 ((s.takeWhile (isBaseDigit base)).foldl
        (fun n c => n * base + (digitValue c).getD 0) n), s.dropWhile (isBaseDigit base)) := by
  induction s generalizing n with
  | nil => rfl
  | cons c s ih =>
    rw [digitLoop]
    cases hc : digitValue c with
    | none =>
      have hno : isBaseDigit base c = false := by simp [isBaseDigit, hc]
      rw [List.takeWhile_cons_of_neg (by simp [hno]), List.dropWhile_cons_of_neg (by simp [hno])]
      rfl
    | some d =>
      dsimp only
      split_ifs with hd
      · have hno : isBaseDigit base c = false := by simpa [isBaseDigit, hc] using hd
        rw [List.takeWhile_cons_of_neg (by simp [hno]), List.dropWhile_cons_of_neg (by simp [hno])]
        rfl
      · have hyes : isBaseDigit base c = true := by simpa [isBaseDigit, hc] using hd
        rw [List.takeWhile_cons_of_pos hyes, List.dropWhile_cons_of_pos hyes, List.foldl_cons, hc,
          ← BitVec.ofNat_mul, ← BitVec.ofNat_add, ih]
        rfl

theorem digitLoop_zero (base : ℕ) (s : List UInt8) :
    digitLoop base 0 s = (BitVec.ofNat 32 (numeralValue base (s.takeWhile (isBaseDigit base))),
      s.dropWhile (isBaseDigit base)) := digitLoop_eq base 0 s

theorem takeWhile_of_not_startsDigit (h : startsDigit base s = false) :
    s.takeWhile (isBaseDigit base) = [] ∧ s.dropWhile (isBaseDigit base) = s := by
  cases s with
  | nil => exact ⟨rfl, rfl⟩
  | cons c s =>
    have hc : ¬ isBaseDigit base c = true := by simpa [startsDigit] using h
    exact ⟨List.takeWhile_cons_of_neg hc, List.dropWhile_cons_of_neg hc⟩

/-! ## The prefix -/

/-- A `0x` that no hexadecimal digit follows, where it would be a prefix. -/
def BareHex (base : ℕ) (s : List UInt8) : Prop :=
  (base = 0 ∨ base = 16) ∧ s.head? = some 0x30 ∧ startsX s.tail = true ∧
    startsDigit 16 (s.drop 2) = false

/-- The text starts with a digit, of base 10 if the base is left open. -/
def HasDigit (base : ℕ) (s : List UInt8) : Prop :=
  startsDigit (if base = 0 then 10 else base) s = true

theorem startsX_iff : startsX s = true ↔ ∃ x t, s = x :: t ∧ (x = 0x78 ∨ x = 0x58) := by
  cases s with
  | nil => simp [startsX]
  | cons x t => simp [startsX]

theorem startsDigit_zero (hb : 0 < base) (h : s.head? = some 0x30) : startsDigit base s = true := by
  have hzero : digitValue 0x30 = some 0 := by decide
  simp [startsDigit, h, isBaseDigit, hzero, hb]

/-- The subject sequence has a digit exactly if one stands where the digits begin, the `0`
    of a prefix included. -/
theorem startsDigit_subjectDigits (base : ℕ) (s : List UInt8) :
    startsDigit (subjectDigits base s).1 (subjectDigits base s).2 = true ↔ HasDigit base s := by
  rw [subjectDigits, HasDigit]
  by_cases hmark : (base = 0 ∨ base = 16) ∧ s.head? = some 0x30 ∧ startsX s.tail ∧
      startsDigit 16 (s.drop 2)
  · obtain ⟨hbase, hhead, hx, hdigit⟩ := hmark
    rw [if_pos ⟨hbase, hhead, hx, hdigit⟩]
    refine iff_of_true hdigit (startsDigit_zero ?_ hhead)
    split_ifs with h
    · exact Nat.succ_pos _
    · omega
  · rw [if_neg hmark]
    split_ifs with hbase hhead
    · exact iff_of_true (startsDigit_zero (Nat.succ_pos _) hhead)
        (startsDigit_zero (Nat.succ_pos _) hhead)
    · rfl
    · rfl

theorem inferBase_mark (hbase : base = 0 ∨ base = 16) (hhead : s.head? = some 0x30)
    (hx : startsX s.tail = true) : inferBase base s = (16, s.drop 2) := by
  rw [inferBase]
  obtain rfl | rfl := hbase
  · rw [if_pos rfl, if_pos hhead, if_pos hx]
  · rw [if_neg (by decide), if_pos rfl, if_pos ⟨hhead, hx⟩]

/-- Unless a prefix dangles, the code reads the digits of the subject sequence. -/
theorem digitLoop_inferBase (hbare : ¬ BareHex base s) :
    digitLoop (inferBase base s).1 0 (inferBase base s).2 =
      (BitVec.ofNat 32 (numeralValue (subjectDigits base s).1
        ((subjectDigits base s).2.takeWhile (isBaseDigit (subjectDigits base s).1))),
        (subjectDigits base s).2.dropWhile (isBaseDigit (subjectDigits base s).1)) := by
  by_cases hmark : (base = 0 ∨ base = 16) ∧ s.head? = some 0x30 ∧ startsX s.tail
  · obtain ⟨hbase, hhead, hx⟩ := hmark
    have hdigit : startsDigit 16 (s.drop 2) = true := by
      by_contra h
      exact hbare ⟨hbase, hhead, hx, Bool.eq_false_iff.mpr h⟩
    rw [inferBase_mark hbase hhead hx, subjectDigits, if_pos ⟨hbase, hhead, hx, hdigit⟩,
      digitLoop_zero]
  · have hsubject : subjectDigits base s =
        if base = 0 then (if s.head? = some 0x30 then 8 else 10, s) else (base, s) := by
      rw [subjectDigits, if_neg fun h => hmark ⟨h.1, h.2.1, h.2.2.1⟩]
    rw [hsubject, inferBase]
    by_cases hzero : base = 0
    · rw [if_pos hzero, if_pos hzero]
      by_cases hhead : s.head? = some 0x30
      · -- The leading 0 has been stepped over; it does not change the value.
        have hx : ¬ startsX s.tail = true := fun h => hmark ⟨.inl hzero, hhead, h⟩
        rw [if_pos hhead, if_pos hhead, if_neg hx, digitLoop_zero]
        obtain ⟨t, rfl⟩ : ∃ t, s = 0x30 :: t := by
          cases s with
          | nil => cases hhead
          | cons c t => exact ⟨t, by rw [Option.some.inj hhead]⟩
        have hyes : isBaseDigit 8 0x30 = true := by decide
        rw [List.takeWhile_cons_of_pos hyes, List.dropWhile_cons_of_pos hyes]
        rfl
      · rw [if_neg hhead, if_neg hhead, digitLoop_zero]
    · rw [if_neg hzero, if_neg hzero]
      split_ifs with h16 hboth
      · exact absurd ⟨.inr h16, hboth.1, hboth.2⟩ hmark
      · rw [digitLoop_zero, h16]
      · rw [digitLoop_zero]

/-- A dangling prefix is stepped over whole. -/
theorem BareHex.digitLoop_inferBase (h : BareHex base s) :
    digitLoop (inferBase base s).1 0 (inferBase base s).2 = (0, s.drop 2) := by
  obtain ⟨hbase, hhead, hx, hdigit⟩ := h
  obtain ⟨htake, hdrop⟩ := takeWhile_of_not_startsDigit hdigit
  rw [inferBase_mark hbase hhead hx, digitLoop_zero, htake, hdrop]
  rfl

/-- The subject sequence of a dangling prefix is its `0`. -/
theorem BareHex.subjectDigits_rest (h : BareHex base s) :
    (subjectDigits base s).2.dropWhile (isBaseDigit (subjectDigits base s).1) = s.tail ∧
      s.tail ≠ s.drop 2 := by
  obtain ⟨hbase, hhead, hx, hdigit⟩ := h
  have hno : ¬ ((base = 0 ∨ base = 16) ∧ s.head? = some 0x30 ∧ startsX s.tail ∧
      startsDigit 16 (s.drop 2)) := by
    rintro ⟨-, -, -, h⟩
    exact Bool.false_ne_true (hdigit.symm.trans h)
  rw [subjectDigits, if_neg hno]
  cases s with
  | nil => cases hhead
  | cons c s =>
    obtain rfl : c = 0x30 := Option.some.inj hhead
    obtain ⟨x, t, rfl, hxX⟩ := startsX_iff.mp hx
    have hstop (b : ℕ) : ¬ isBaseDigit b x = true := by
      have hnone : digitValue x = none := by obtain rfl | rfl := hxX <;> decide
      simp [isBaseDigit, hnone]
    have hzero (b : ℕ) (hb : isBaseDigit b 0x30 = true) :
        (0x30 :: x :: t).dropWhile (isBaseDigit b) = x :: t := by
      rw [List.dropWhile_cons_of_pos hb, List.dropWhile_cons_of_neg (hstop b)]
    refine ⟨?_, fun h => ?_⟩
    · obtain rfl | rfl := hbase
      · exact hzero 8 (by decide)
      · exact hzero 16 (by decide)
    · have hlen := congrArg List.length h
      simp at hlen

/-! ## Both functions -/

/-- The text behind the blanks and the sign. -/
def afterSign (nptr : List UInt8) : List UInt8 := (takeSign (nptr.dropWhile isspace)).2

/-- The texts that `strtol` reads as it should: no prefix dangles, and if there is no digit
    there is neither a blank nor a sign. -/
def StrtolExact (base : ℕ) (nptr : List UInt8) : Prop :=
  ¬ BareHex base (afterSign nptr) ∧ (HasDigit base (afterSign nptr) ∨ afterSign nptr = nptr)

/-- The texts that `strtoul` reads as it should: with a `-`, those that have no digit behind
    it and no blank before it. -/
def StrtoulExact (base : ℕ) (nptr : List UInt8) : Prop :=
  if (nptr.dropWhile isspace).head? = some 0x2D then
    nptr.dropWhile isspace = nptr ∧ ¬ HasDigit base (nptr.dropWhile isspace).tail
  else StrtolExact base nptr

/-- The value is that of the subject sequence, if it fits, and so is the end pointer. -/
def StrtolCorrect (base : ℕ) (nptr : List UInt8) : Prop :=
  (-2 ^ 31 ≤ (subject base nptr).1 → (subject base nptr).1 < 2 ^ 31 →
      (strtol nptr base).1.toInt = (subject base nptr).1) ∧
    (strtol nptr base).2 = (subject base nptr).2

/-- The same for `strtoul`. -/
def StrtoulCorrect (base : ℕ) (nptr : List UInt8) : Prop :=
  (0 ≤ (subject base nptr).1 → (subject base nptr).1 < 2 ^ 32 →
      ((strtoul nptr base).1.toNat : ℤ) = (subject base nptr).1) ∧
    (strtoul nptr base).2 = (subject base nptr).2

variable {nptr : List UInt8}

/-- The digits of the subject sequence, and the text behind them. -/
def subjectBody (base : ℕ) (s : List UInt8) : ℕ × List UInt8 :=
  (numeralValue (subjectDigits base s).1
      ((subjectDigits base s).2.takeWhile (isBaseDigit (subjectDigits base s).1)),
    (subjectDigits base s).2.dropWhile (isBaseDigit (subjectDigits base s).1))

theorem subject_of_hasDigit (h : HasDigit base (afterSign nptr)) :
    subject base nptr = (if (takeSign (nptr.dropWhile isspace)).1
      then -((subjectBody base (afterSign nptr)).1 : ℤ) else (subjectBody base (afterSign nptr)).1,
      (subjectBody base (afterSign nptr)).2) :=
  if_pos ((startsDigit_subjectDigits base (afterSign nptr)).mpr h)

theorem subject_of_not_hasDigit (h : ¬ HasDigit base (afterSign nptr)) :
    subject base nptr = (0, nptr) :=
  if_neg (mt (startsDigit_subjectDigits base (afterSign nptr)).mp h)

/-- Without a digit there is no prefix either, and nothing is read. -/
theorem subjectBody_of_not_hasDigit (h : ¬ HasDigit base s) : subjectBody base s = (0, s) := by
  have hno := Bool.eq_false_iff.mpr (mt (startsDigit_subjectDigits base s).mp h)
  obtain ⟨htake, hdrop⟩ := takeWhile_of_not_startsDigit hno
  have hsame : (subjectDigits base s).2 = s := by
    rw [subjectDigits] at hno ⊢
    split_ifs at hno ⊢ with hmark
    · exact absurd hmark.2.2.2 (Bool.eq_false_iff.mp hno)
    · rfl
    · rfl
    · rfl
  rw [subjectBody, htake, hdrop, hsame]
  rfl

/-- What both functions read behind the sign. -/
theorem read_eq (base : ℕ) (s : List UInt8) :
    (¬ BareHex base s ∧ digitLoop (inferBase base s).1 0 (inferBase base s).2 =
      (BitVec.ofNat 32 (subjectBody base s).1, (subjectBody base s).2)) ∨
    (BareHex base s ∧ HasDigit base s ∧
      (digitLoop (inferBase base s).1 0 (inferBase base s).2).2 ≠ (subjectBody base s).2) := by
  by_cases h : BareHex base s
  · obtain ⟨hrest, hne⟩ := h.subjectDigits_rest
    refine .inr ⟨h, startsDigit_zero ?_ h.2.1, ?_⟩
    · split_ifs
      · exact Nat.succ_pos _
      · have := h.1
        omega
    · rw [h.digitLoop_inferBase, subjectBody, hrest]
      exact hne.symm
  · exact .inl ⟨h, digitLoop_inferBase h⟩

theorem toInt_signed (negative : Bool) (n : ℕ)
    (hlow : -2 ^ 31 ≤ if negative then -(n : ℤ) else n)
    (hhigh : (if negative then -(n : ℤ) else n) < 2 ^ 31) :
    (BitVec.ofNat 32 n * if negative then -1 else 1).toInt = if negative then -(n : ℤ) else n := by
  have hword : (BitVec.ofNat 32 n * if negative then -1 else 1) =
      BitVec.ofInt 32 (if negative then -(n : ℤ) else n) := by
    cases negative
    · simp
    · rw [if_pos rfl, if_pos rfl, mul_neg_one, BitVec.ofInt_neg, BitVec.ofInt_natCast]
  rw [hword, BitVec.toInt_ofInt]
  exact Int.bmod_eq_of_le (by omega) (by omega)

/-- `strtol` reads a text as it should exactly if it is one of `StrtolExact`. -/
theorem strtolCorrect_iff : StrtolCorrect base nptr ↔ StrtolExact base nptr := by
  have hrun : strtol nptr base =
      ((digitLoop (inferBase base (afterSign nptr)).1 0 (inferBase base (afterSign nptr)).2).1 *
        (if (takeSign (nptr.dropWhile isspace)).1 then -1 else 1),
        (digitLoop (inferBase base (afterSign nptr)).1 0 (inferBase base (afterSign nptr)).2).2) :=
    rfl
  rw [StrtolCorrect, StrtolExact, hrun]
  obtain ⟨hbare, hread⟩ | ⟨hbare, hdigit, hne⟩ := read_eq base (afterSign nptr)
  · rw [hread]
    by_cases hdigit : HasDigit base (afterSign nptr)
    · rw [subject_of_hasDigit hdigit]
      exact iff_of_true ⟨toInt_signed _ _, rfl⟩ ⟨hbare, .inl hdigit⟩
    · rw [subject_of_not_hasDigit hdigit, subjectBody_of_not_hasDigit hdigit]
      simp [hbare, hdigit]
  · rw [subject_of_hasDigit hdigit]
    exact iff_of_false (fun h => hne h.2) fun h => h.1 hbare

/-- A `-` is not a digit, and `strtoul` stops before it. -/
theorem strtoul_minus {t : List UInt8} (ht : nptr.dropWhile isspace = 0x2D :: t) :
    strtoul nptr base = (0, 0x2D :: t) := by
  have hinfer : (inferBase base (0x2D :: t)).2 = 0x2D :: t := by
    rw [inferBase]
    split_ifs with h1 h2 h3 h4 h5
    · cases h2
    · cases h2
    · rfl
    · cases h5.1
    · rfl
    · rfl
  have hstop (b : ℕ) : startsDigit b (0x2D :: t) = false := by
    have hnone : digitValue 0x2D = none := by decide
    simp [startsDigit, isBaseDigit, hnone]
  obtain ⟨htake, hdrop⟩ := takeWhile_of_not_startsDigit (hstop (inferBase base (0x2D :: t)).1)
  have hskip : skipByte 0x2B (0x2D :: t) = 0x2D :: t := rfl
  rw [strtoul, ht, hskip]
  simp only [hinfer, digitLoop_zero, htake, hdrop]
  rfl

theorem length_subjectBody_le (base : ℕ) (s : List UInt8) :
    (subjectBody base s).2.length ≤ s.length := by
  have hle : (subjectDigits base s).2.length ≤ s.length := by
    rw [subjectDigits]
    split_ifs
    · simp
    · rfl
    · rfl
    · rfl
  exact (List.dropWhile_suffix _).length_le.trans hle

theorem takeSign_of_not_minus (h : s.head? ≠ some 0x2D) :
    takeSign s = (false, skipByte 0x2B s) := by
  cases s with
  | nil => rfl
  | cons c s =>
    have hc : c ≠ 0x2D := fun hc => h (congrArg some hc)
    rw [takeSign, if_neg hc, skipByte]
    split_ifs <;> rfl

/-- `strtoul` reads a text as it should exactly if it is one of `StrtoulExact`. -/
theorem strtoulCorrect_iff : StrtoulCorrect base nptr ↔ StrtoulExact base nptr := by
  rw [StrtoulCorrect, StrtoulExact]
  by_cases hminus : (nptr.dropWhile isspace).head? = some 0x2D
  · rw [if_pos hminus]
    obtain ⟨t, ht⟩ : ∃ t, nptr.dropWhile isspace = 0x2D :: t := List.head?_eq_some_iff.mp hminus
    have hafter : afterSign nptr = t := by rw [afterSign, ht]; rfl
    rw [strtoul_minus ht, ht, List.tail_cons]
    by_cases hdigit : HasDigit base t
    · -- The sign belongs to the subject sequence, but `strtoul` stops before it.
      rw [subject_of_hasDigit (hafter ▸ hdigit), hafter]
      refine iff_of_false (fun h => ?_) fun h => h.2 hdigit
      have hlen := congrArg List.length h.2
      have hle := length_subjectBody_le base t
      simp only [List.length_cons] at hlen
      omega
    · rw [subject_of_not_hasDigit (hafter ▸ hdigit)]
      simp [hdigit]
  · rw [if_neg hminus, StrtolExact]
    have hsign := takeSign_of_not_minus hminus
    have hafter : skipByte 0x2B (nptr.dropWhile isspace) = afterSign nptr := by
      rw [afterSign, hsign]
    have hrun : strtoul nptr base =
        digitLoop (inferBase base (afterSign nptr)).1 0 (inferBase base (afterSign nptr)).2 := by
      rw [← hafter]
      rfl
    rw [hrun]
    obtain ⟨hbare, hread⟩ | ⟨hbare, hdigit, hne⟩ := read_eq base (afterSign nptr)
    · rw [hread]
      by_cases hdigit : HasDigit base (afterSign nptr)
      · rw [subject_of_hasDigit hdigit, hsign, if_neg Bool.false_ne_true]
        refine iff_of_true ⟨fun _ hfits => ?_, rfl⟩ ⟨hbare, .inl hdigit⟩
        have hlt : (subjectBody base (afterSign nptr)).1 < 2 ^ 32 := Int.ofNat_lt.mp hfits
        rw [BitVec.toNat_ofNat, Nat.mod_eq_of_lt hlt]
      · rw [subject_of_not_hasDigit hdigit, subjectBody_of_not_hasDigit hdigit]
        simp [hbare, hdigit]
    · rw [subject_of_hasDigit hdigit]
      exact iff_of_false (fun h => hne h.2) fun h => h.1 hbare

/-- **Reading integers.** For every text and every base, 0, 8, 10 and 16 among them,
    `strtol` and `strtoul` return the value of the subject sequence, if it fits in 32 bits,
    and an end pointer behind it, if and only if no `0x` that counts as a prefix lacks its
    hexadecimal digit, and no blank or sign is read without a digit behind it; `strtoul`
    moreover only if there is no `-` before a digit or behind a blank. -/
theorem strtol_strtoul_exact_iff (nptr : List UInt8) (base : ℕ) :
    (StrtolCorrect base nptr ↔ StrtolExact base nptr) ∧
      (StrtoulCorrect base nptr ↔ StrtoulExact base nptr) :=
  ⟨strtolCorrect_iff, strtoulCorrect_iff⟩

/-- `strtol("0x", &end, 16)` leaves `end` behind the `x`, `strtol(" ", &end, 10)` behind the
    blank, and `strtoul("-1", &end, 10)` before the sign. -/
theorem strtol_strtoul_not_exact :
    ((strtol [0x30, 0x78] 16).2 = [] ∧ ¬ StrtolCorrect 16 [0x30, 0x78]) ∧
    ((strtol [0x20] 10).2 = [] ∧ ¬ StrtolCorrect 10 [0x20]) ∧
    (strtoul [0x2D, 0x31] 10 = (0, [0x2D, 0x31]) ∧ ¬ StrtoulCorrect 10 [0x2D, 0x31]) := by
  refine ⟨⟨by decide, fun h => ?_⟩, ⟨by decide, fun h => ?_⟩, ⟨by decide, fun h => ?_⟩⟩
  · exact absurd h.2 (by decide)
  · exact absurd h.2 (by decide)
  · exact absurd h.2 (by decide)

end Mboot.Libc
