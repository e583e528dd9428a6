import Mboot.Libc.Strtol

/-!
# Reading floating-point numbers

Model of `strtod` (`user/src/libc.c`, lines 1215–1264) and `pow` (line 1365). Every part of a
number is optional in the code, and no part is given back when the next one is missing. The
power of ten of an exponent is a call of `pow`, and all that `pow` does is to call itself.

`IsNumber` is the form of a number.

* `strtod_exact_iff`: the texts on which `strtod` returns with the end pointer behind the
  longest number at the front, or at the start if there is none.
* `strtod_not_exact`: the texts `"-"`, `"."` and `"1e5"`.
-/

namespace Mboot.Libc

/-! ## Model -/

/-- The operations on `double` that `strtod` uses. -/
structure DoubleOps (D : Type) where
  ofInt : ℤ → D
  add : D → D → D
  mul : D → D → D
  div : D → D → D

/-- The text starts with `e` or `E`. -/
def startsE (s : List UInt8) : Bool := s.head? == some 0x65 || s.head? == some 0x45

section Model

variable {D : Type} (ops : DoubleOps D)

/-- `pow` (line 1365): `__builtin_pow` with arguments that are not constant is a call of
    `pow`. -/
def pow : ℕ → D → D → Option D
  | 0, _, _ => none
  | fuel + 1, x, y => pow fuel x y

/-- The value of a digit, as a `double`. -/
def digitDouble (c : UInt8) : D := ops.ofInt (c.toNat - 0x30)

/-- The loop over the integer part (lines 1229–1232). -/
def wholeLoop (result : D) : List UInt8 → D × List UInt8
  | [] => (result, [])
  | c :: s =>
    if isDigit c then
      wholeLoop (ops.add (ops.mul result (ops.ofInt 10)) (digitDouble ops c)) s
    else (result, c :: s)

/-- The loop over the fraction (lines 1237–1241). -/
def fractionLoop (frac div : D) : List UInt8 → D × List UInt8
  | [] => (frac, [])
  | c :: s =>
    if isDigit c then
      fractionLoop (ops.add frac (ops.div (digitDouble ops c) div)) (ops.mul div (ops.ofInt 10)) s
    else (frac, c :: s)

/-- The integer part and the fraction (lines 1229–1243). -/
def readMantissa (s : List UInt8) : D × List UInt8 :=
  let (result, s) := wholeLoop ops (ops.ofInt 0) s
  if s.head? = some 0x2E then
    let (frac, s) := fractionLoop ops (ops.ofInt 0) (ops.ofInt 10) s.tail
    (ops.add result frac, s)
  else (result, s)

/-- The exponent (lines 1244–1259); `exp` is an `int`, which wraps around. -/
def readExponent (fuel : ℕ) (result : D) (s : List UInt8) : Option (D × List UInt8) :=
  if startsE s then do
    let (negative, s) := takeSign s.tail
    let (exp, s) := scanNumber 0 s
    let exp := exp * if negative then -1 else 1
    let power ← pow fuel (ops.ofInt 10) (ops.ofInt exp.toInt)
    some (ops.mul result power, s)
  else some (result, s)

/-- `strtod` (lines 1215–1264): the value and the text at `*endptr`, or `none` if it has not
    returned when the fuel of `pow` is used up. -/
def strtod (fuel : ℕ) (nptr : List UInt8) : Option (D × List UInt8) := do
  let (negative, s) := takeSign (nptr.dropWhile isspace)
  let (result, s) := readMantissa ops s
  let (result, s) ← readExponent ops fuel result s
  some (ops.mul result (ops.ofInt (if negative then -1 else 1)), s)

end Model

/-! ## The form of a number -/

/-- Only digits. -/
def Digits (ds : List UInt8) : Prop := ∀ c ∈ ds, isDigit c = true

/-- An optional sign. -/
def IsSign (s : List UInt8) : Prop := s = [] ∨ s = [0x2D] ∨ s = [0x2B]

/-- `digits+ ('.' digits*)? | '.' digits+` -/
def IsMantissa (m : List UInt8) : Prop :=
  (∃ ds, ds ≠ [] ∧ Digits ds ∧ (m = ds ∨ ∃ fs, Digits fs ∧ m = ds ++ 0x2E :: fs)) ∨
    ∃ fs, fs ≠ [] ∧ Digits fs ∧ m = 0x2E :: fs

/-- `([eE] sign? digits+)?` -/
def IsExponent (e : List UInt8) : Prop :=
  e = [] ∨ ∃ c sign ds, (c = 0x65 ∨ c = 0x45) ∧ IsSign sign ∧ ds ≠ [] ∧ Digits ds ∧
    e = c :: (sign ++ ds)

/-- `whitespace* sign? mantissa exponent` -/
def IsNumber (p : List UInt8) : Prop :=
  ∃ blanks sign m e, (∀ c ∈ blanks, isspace c = true) ∧ IsSign sign ∧ IsMantissa m ∧
    IsExponent e ∧ p = blanks ++ (sign ++ (m ++ e))

/-- `rest` is what stands behind the longest number at the front of the text, or the whole
    text if there is none. -/
def IsRest (nptr rest : List UInt8) : Prop :=
  (∃ p, IsNumber p ∧ nptr = p ++ rest ∧
      ∀ q t, IsNumber q → nptr = q ++ t → q.length ≤ p.length) ∨
    ((∀ q t, IsNumber q → nptr ≠ q ++ t) ∧ rest = nptr)

/-! ## Where the code stops -/

/-- The text behind the integer part and the fraction. -/
def mantissaEnd (s : List UInt8) : List UInt8 :=
  if (s.dropWhile isDigit).head? = some 0x2E then (s.dropWhile isDigit).tail.dropWhile isDigit
  else s.dropWhile isDigit

/-- A loop that goes on while `p` holds, whatever it computes, leaves the text from the first
    character on that does not satisfy `p`. -/
theorem snd_eq_dropWhile {σ ρ : Type} {p : UInt8 → Bool} (loop : σ → List UInt8 → ρ × List UInt8)
    (hnil : ∀ a, (loop a []).2 = [])
    (hpos : ∀ a c s, p c = true → ∃ a', loop a (c :: s) = loop a' s)
    (hneg : ∀ a c s, ¬ p c = true → (loop a (c :: s)).2 = c :: s) (a : σ) (s : List UInt8) :
    (loop a s).2 = s.dropWhile p := by
  induction s generalizing a with
  | nil => exact hnil a
  | cons c s ih =>
    by_cases h : p c = true
    · obtain ⟨a', ha'⟩ := hpos a c s h
      rw [ha', ih, List.dropWhile_cons_of_pos h]
    · rw [hneg a c s h, List.dropWhile_cons_of_neg h]

section

variable {D : Type} (ops : DoubleOps D)

theorem wholeLoop_snd (result : D) (s : List UInt8) :
    (wholeLoop ops result s).2 = s.dropWhile isDigit := by
  apply snd_eq_dropWhile (wholeLoop ops)
  · exact fun _ => rfl
  · exact fun _ _ _ h => ⟨_, if_pos h⟩
  · intro result c s h
    rw [wholeLoop, if_neg h]

theorem fractionLoop_snd (frac div : D) (s : List UInt8) :
    (fractionLoop ops frac div s).2 = s.dropWhile isDigit := by
  refine snd_eq_dropWhile (fun a : D × D => fractionLoop ops a.1 a.2) ?_ ?_ ?_ (frac, div) s
  · exact fun _ => rfl
  · exact fun a _ _ h => ⟨(_, _), if_pos h⟩
  · intro a c s h
    show (fractionLoop ops a.1 a.2 (c :: s)).2 = c :: s
    rw [fractionLoop, if_neg h]

theorem readMantissa_snd (s : List UInt8) : (readMantissa ops s).2 = mantissaEnd s := by
  simp only [readMantissa, mantissaEnd, wholeLoop_snd]
  split_ifs
  · exact fractionLoop_snd ops _ _ _
  · rfl

theorem pow_eq_none (fuel : ℕ) (x y : D) : pow fuel x y = none := by
  induction fuel with
  | zero => rfl
  | succ fuel ih => exact ih

/-- `strtod` does not return from a text with an `e` or `E` behind the mantissa, and leaves
    the end pointer behind the mantissa of any other. -/
theorem strtod_eq (fuel : ℕ) (nptr : List UInt8) :
    (strtod ops fuel nptr).map Prod.snd =
      if startsE (mantissaEnd (afterSign nptr)) then none
      else some (mantissaEnd (afterSign nptr)) := by
  have hend : (readMantissa ops (takeSign (nptr.dropWhile isspace)).2).2 =
      mantissaEnd (afterSign nptr) := readMantissa_snd ops _
  simp only [strtod, readExponent, hend, pow_eq_none]
  split_ifs <;> rfl

end

/-! ## The longest number -/

/-- The text starts with a decimal digit. -/
def startsDecimal (s : List UInt8) : Bool := s.head?.any isDigit

/-- A digit of the integer part or of the fraction is there. -/
def HasMantissa (s : List UInt8) : Prop :=
  startsDecimal s = true ∨ s.head? = some 0x2E ∧ startsDecimal s.tail = true

instance (s : List UInt8) : Decidable (HasMantissa s) :=
  inferInstanceAs (Decidable (_ ∨ _ ∧ _))

/-- The text behind an exponent, if one with a digit is there. -/
def exponentEnd (s : List UInt8) : List UInt8 :=
  if startsE s ∧ startsDecimal (takeSign s.tail).2 then (takeSign s.tail).2.dropWhile isDigit else s

variable {s t : List UInt8} {c : UInt8}

theorem startsE_iff : startsE s = true ↔ ∃ c t, s = c :: t ∧ (c = 0x65 ∨ c = 0x45) := by
  cases s with
  | nil => simp [startsE]
  | cons c t => simp [startsE]

theorem startsDecimal_iff : startsDecimal s = true ↔ ∃ c t, s = c :: t ∧ isDigit c = true := by
  cases s with
  | nil => simp [startsDecimal]
  | cons c t => simp [startsDecimal]

theorem Digits.startsDecimal {ds : List UInt8} (hds : Digits ds) (hne : ds ≠ []) (t : List UInt8) :
    startsDecimal (ds ++ t) = true := by
  obtain ⟨c, ds, rfl⟩ := List.exists_cons_of_ne_nil hne
  exact startsDecimal_iff.mpr ⟨c, ds ++ t, rfl, hds c (by simp)⟩

theorem Digits.dropWhile {ds : List UInt8} (hds : Digits ds) (t : List UInt8) :
    (ds ++ t).dropWhile isDigit = t.dropWhile isDigit :=
  List.dropWhile_append_of_pos hds

theorem digits_takeWhile (s : List UInt8) : Digits (s.takeWhile isDigit) :=
  fun _ hc => List.mem_takeWhile_imp hc

theorem takeWhile_ne_nil (h : startsDecimal s = true) : s.takeWhile isDigit ≠ [] := by
  obtain ⟨c, t, rfl, hc⟩ := startsDecimal_iff.mp h
  rw [List.takeWhile_cons_of_pos hc]
  exact List.cons_ne_nil _ _

theorem dropWhile_of_not_startsDecimal (h : ¬ startsDecimal s = true) :
    s.dropWhile isDigit = s := by
  cases s with
  | nil => rfl
  | cons c s =>
    have hc : ¬ isDigit c = true := by simpa [startsDecimal] using h
    exact List.dropWhile_cons_of_neg hc

/-! ### A number is there -/

theorem takeSign_split (s : List UInt8) : ∃ sign, IsSign sign ∧ s = sign ++ (takeSign s).2 := by
  cases s with
  | nil => exact ⟨[], .inl rfl, rfl⟩
  | cons c s =>
    rw [takeSign]
    split_ifs with h1 h2
    · exact ⟨[0x2D], .inr (.inl rfl), by rw [h1]; rfl⟩
    · exact ⟨[0x2B], .inr (.inr rfl), by rw [h2]; rfl⟩
    · exact ⟨[], .inl rfl, rfl⟩

theorem HasMantissa.split (h : HasMantissa s) : ∃ m, IsMantissa m ∧ s = m ++ mantissaEnd s := by
  have hsplit := List.takeWhile_append_dropWhile (p := isDigit) (l := s)
  rw [mantissaEnd]
  by_cases hdot : (s.dropWhile isDigit).head? = some 0x2E
  · obtain ⟨t, ht⟩ := List.head?_eq_some_iff.mp hdot
    have htail := List.takeWhile_append_dropWhile (p := isDigit) (l := t)
    have hs : s = (s.takeWhile isDigit ++ 0x2E :: t.takeWhile isDigit) ++ t.dropWhile isDigit := by
      rw [List.append_assoc, List.cons_append, htail, ← ht, hsplit]
    refine ⟨s.takeWhile isDigit ++ 0x2E :: t.takeWhile isDigit, ?_,
      by rw [if_pos hdot, ht]; exact hs⟩
    by_cases hdigit : startsDecimal s = true
    · exact .inl ⟨_, takeWhile_ne_nil hdigit, digits_takeWhile s,
        .inr ⟨_, digits_takeWhile t, rfl⟩⟩
    · obtain ⟨-, hfrac⟩ := h.resolve_left hdigit
      rw [dropWhile_of_not_startsDecimal hdigit] at ht
      subst ht
      exact .inr ⟨_, takeWhile_ne_nil hfrac, digits_takeWhile t, rfl⟩
  · rw [if_neg hdot]
    refine ⟨s.takeWhile isDigit, ?_, hsplit.symm⟩
    have hdigit : startsDecimal s = true := by
      by_contra hno
      rw [dropWhile_of_not_startsDecimal hno] at hdot
      exact hdot (h.resolve_left hno).1
    exact .inl ⟨_, takeWhile_ne_nil hdigit, digits_takeWhile s, .inl rfl⟩

theorem exponentEnd_split (s : List UInt8) : ∃ e, IsExponent e ∧ s = e ++ exponentEnd s := by
  rw [exponentEnd]
  split_ifs with h
  · obtain ⟨c, t, rfl, hc⟩ := startsE_iff.mp h.1
    obtain ⟨sign, hsign, hsplit⟩ := takeSign_split t
    have hdigits := List.takeWhile_append_dropWhile (p := isDigit) (l := (takeSign t).2)
    refine ⟨c :: (sign ++ (takeSign t).2.takeWhile isDigit), .inr ⟨c, sign, _, hc, hsign,
      takeWhile_ne_nil h.2, digits_takeWhile _, rfl⟩, ?_⟩
    rw [List.cons_append, List.append_assoc, List.tail_cons, hdigits, ← hsplit]
  · exact ⟨[], .inl rfl, rfl⟩

theorem HasMantissa.isNumber {nptr : List UInt8} (h : HasMantissa (afterSign nptr)) :
    ∃ p, IsNumber p ∧ nptr = p ++ exponentEnd (mantissaEnd (afterSign nptr)) := by
  have hblanks := List.takeWhile_append_dropWhile (p := isspace) (l := nptr)
  obtain ⟨sign, hsign, hs⟩ := takeSign_split (nptr.dropWhile isspace)
  obtain ⟨m, hm, hms⟩ := h.split
  obtain ⟨e, he, hes⟩ := exponentEnd_split (mantissaEnd (afterSign nptr))
  refine ⟨nptr.takeWhile isspace ++ (sign ++ (m ++ e)), ⟨_, sign, m, e,
    fun _ hc => List.mem_takeWhile_imp hc, hsign, hm, he, rfl⟩, ?_⟩
  simp only [List.append_assoc]
  rw [← hes, ← hms, afterSign, ← hs, hblanks]

/-! ### No other number goes further -/

/-- The blanks and the signs. -/
def signMarks : List UInt8 := [0x20, 0x09, 0x0A, 0x0B, 0x0C, 0x0D, 0x2D, 0x2B]

theorem notMem_signMarks_iff :
    c ∉ signMarks ↔ isspace c = false ∧ c ≠ 0x2D ∧ c ≠ 0x2B := by
  simp only [signMarks, isspace, List.mem_cons, List.not_mem_nil, or_false, not_or,
    Bool.or_eq_false_iff, beq_eq_false_iff_ne, and_assoc]

theorem isspace_of_mantissaChar (hc : isDigit c = true ∨ c = 0x2E) :
    isspace c = false ∧ c ≠ 0x2D ∧ c ≠ 0x2B := by
  have hno : ∀ d ∈ signMarks, ¬ (isDigit d = true ∨ d = 0x2E) := by decide +kernel
  exact notMem_signMarks_iff.mp fun hmem => hno c hmem hc

theorem takeSign_append {sign : List UInt8} (hsign : IsSign sign) (hminus : c ≠ 0x2D)
    (hplus : c ≠ 0x2B) (t : List UInt8) : (takeSign (sign ++ c :: t)).2 = c :: t := by
  obtain rfl | rfl | rfl := hsign
  · rw [List.nil_append, takeSign, if_neg hminus, if_neg hplus]
  · rfl
  · rfl

theorem IsMantissa.cons {m : List UInt8} (hm : IsMantissa m) :
    ∃ c m', m = c :: m' ∧ (isDigit c = true ∨ c = 0x2E) := by
  obtain ⟨ds, hne, hds, rfl | ⟨fs, -, rfl⟩⟩ | ⟨fs, -, -, rfl⟩ := hm
  · obtain ⟨c, ds, rfl⟩ := List.exists_cons_of_ne_nil hne
    exact ⟨c, ds, rfl, .inl (hds c (by simp))⟩
  · obtain ⟨c, ds, rfl⟩ := List.exists_cons_of_ne_nil hne
    exact ⟨c, _, rfl, .inl (hds c (by simp))⟩
  · exact ⟨_, fs, rfl, .inr rfl⟩

theorem IsMantissa.hasMantissa {m : List UInt8} (hm : IsMantissa m) (r : List UInt8) :
    HasMantissa (m ++ r) := by
  obtain ⟨ds, hne, hds, rfl | ⟨fs, -, rfl⟩⟩ | ⟨fs, hne, hfs, rfl⟩ := hm
  · exact .inl (hds.startsDecimal hne r)
  · rw [List.append_assoc]
    exact .inl (hds.startsDecimal hne _)
  · exact .inr ⟨rfl, hfs.startsDecimal hne r⟩

/-- Behind blanks and sign, a number at the front of the text is its mantissa and its
    exponent. -/
theorem IsNumber.behind_sign {q : List UInt8} (hq : IsNumber q) (t : List UInt8) :
    ∃ m e, IsMantissa m ∧ IsExponent e ∧ afterSign (q ++ t) = m ++ (e ++ t) := by
  obtain ⟨blanks, sign, m, e, hblanks, hsign, hm, he, rfl⟩ := hq
  obtain ⟨c, m', rfl, hc⟩ := hm.cons
  obtain ⟨hspace, hminus, hplus⟩ := isspace_of_mantissaChar hc
  refine ⟨c :: m', e, hm, he, ?_⟩
  simp only [afterSign, List.append_assoc, List.cons_append]
  rw [List.dropWhile_append_of_pos hblanks]
  have hstart : (sign ++ c :: (m' ++ (e ++ t))).dropWhile isspace =
      sign ++ c :: (m' ++ (e ++ t)) := by
    obtain rfl | rfl | rfl := hsign
    · exact List.dropWhile_cons_of_neg (by simp [hspace])
    · exact List.dropWhile_cons_of_neg (by decide)
    · exact List.dropWhile_cons_of_neg (by decide)
  rw [hstart, takeSign_append hsign hminus hplus]

theorem length_dropWhile_le (s : List UInt8) : (s.dropWhile isDigit).length ≤ s.length :=
  (List.dropWhile_suffix _).length_le

theorem length_mantissaEnd_le (s : List UInt8) : (mantissaEnd s).length ≤ s.length := by
  have hle := length_dropWhile_le s
  rw [mantissaEnd]
  split_ifs
  · have htail := length_dropWhile_le (s.dropWhile isDigit).tail
    rw [List.length_tail] at htail
    omega
  · exact hle

theorem length_exponentEnd_le (s : List UInt8) : (exponentEnd s).length ≤ s.length := by
  obtain ⟨e, -, hs⟩ := exponentEnd_split s
  have hlen := congrArg List.length hs
  rw [List.length_append] at hlen
  omega

/-- The end of the mantissa, when more follows one. -/
theorem IsMantissa.end_append {m : List UInt8} (hm : IsMantissa m) (r : List UInt8) :
    mantissaEnd (m ++ r) = r.dropWhile isDigit ∨ mantissaEnd (m ++ r) = mantissaEnd r := by
  have hdot (fs : List UInt8) (hfs : Digits fs) : mantissaEnd (0x2E :: (fs ++ r)) =
      r.dropWhile isDigit := by
    rw [mantissaEnd, List.dropWhile_cons_of_neg (by decide), List.head?_cons, if_pos rfl]
    exact hfs.dropWhile r
  have hwhole (ds t : List UInt8) (hds : Digits ds) : mantissaEnd (ds ++ t) =
      mantissaEnd t := by
    rw [mantissaEnd, mantissaEnd, hds.dropWhile]
  obtain ⟨ds, -, hds, rfl | ⟨fs, hfs, rfl⟩⟩ | ⟨fs, -, hfs, rfl⟩ := hm
  · exact .inr (hwhole _ r hds)
  · rw [List.append_assoc, hwhole ds _ hds, List.cons_append]
    exact .inl (hdot fs hfs)
  · exact .inl (hdot fs hfs)

/-- What stands behind a number at the front of the text is at least what the longest one
    leaves. -/
theorem IsNumber.length_le {q : List UInt8} (hq : IsNumber q) (t : List UInt8) :
    HasMantissa (afterSign (q ++ t)) ∧
      (exponentEnd (mantissaEnd (afterSign (q ++ t)))).length ≤ t.length := by
  obtain ⟨m, e, hm, he, hafter⟩ := hq.behind_sign t
  rw [hafter]
  refine ⟨hm.hasMantissa _, ?_⟩
  obtain rfl | ⟨c, sign, ds, hc, hsign, hne, hds, rfl⟩ := he
  · have hmend : (mantissaEnd (m ++ t)).length ≤ t.length := by
      obtain h | h := hm.end_append t
      · exact h ▸ length_dropWhile_le t
      · exact h ▸ length_mantissaEnd_le t
    exact (length_exponentEnd_le _).trans hmend
  · -- The exponent stops the digits of the mantissa, and its own digits are read.
    have hnot : ¬ isDigit c = true ∧ c ≠ 0x2E := by
      obtain rfl | rfl := hc <;> decide
    have hdrop : ((c :: (sign ++ ds)) ++ t).dropWhile isDigit = (c :: (sign ++ ds)) ++ t :=
      List.dropWhile_cons_of_neg hnot.1
    have hstay : mantissaEnd ((c :: (sign ++ ds)) ++ t) = (c :: (sign ++ ds)) ++ t := by
      rw [mantissaEnd, hdrop, if_neg]
      exact fun h => hnot.2 (Option.some.inj h)
    have hmend : mantissaEnd (m ++ ((c :: (sign ++ ds)) ++ t)) = c :: (sign ++ (ds ++ t)) := by
      rw [show c :: (sign ++ (ds ++ t)) = (c :: (sign ++ ds)) ++ t by simp]
      obtain h | h := hm.end_append ((c :: (sign ++ ds)) ++ t)
      · exact h.trans hdrop
      · exact h.trans hstay
    have hsignEnd : (takeSign (sign ++ (ds ++ t))).2 = ds ++ t := by
      obtain ⟨d, ds, rfl⟩ := List.exists_cons_of_ne_nil hne
      obtain ⟨-, hminus, hplus⟩ := isspace_of_mantissaChar (.inl (hds d (by simp)))
      exact takeSign_append hsign hminus hplus _
    have hE : startsE (c :: (sign ++ (ds ++ t))) = true := startsE_iff.mpr ⟨c, _, rfl, hc⟩
    rw [hmend, exponentEnd, List.tail_cons, hsignEnd, if_pos ⟨hE, hds.startsDecimal hne t⟩,
      hds.dropWhile]
    exact length_dropWhile_le t

/-- What stands behind the longest number. -/
theorem isRest_iff {nptr rest : List UInt8} :
    IsRest nptr rest ↔ (HasMantissa (afterSign nptr) ∧
        rest = exponentEnd (mantissaEnd (afterSign nptr))) ∨
      (¬ HasMantissa (afterSign nptr) ∧ rest = nptr) := by
  constructor
  · rintro (⟨p, hp, rfl, hlongest⟩ | ⟨hnone, rfl⟩)
    · obtain ⟨hmant, hle⟩ := hp.length_le rest
      obtain ⟨p', hp', hsplit⟩ := hmant.isNumber
      have hlen := hlongest p' _ hp' hsplit
      have htotal := congrArg List.length hsplit
      rw [List.length_append, List.length_append] at htotal
      exact .inl ⟨hmant, (List.append_inj hsplit (by omega)).2⟩
    · refine .inr ⟨fun hmant => ?_, rfl⟩
      obtain ⟨p, hp, hsplit⟩ := hmant.isNumber
      exact hnone p _ hp hsplit
  · rintro (⟨hmant, rfl⟩ | ⟨hmant, rfl⟩)
    · obtain ⟨p, hp, hsplit⟩ := hmant.isNumber
      refine .inl ⟨p, hp, hsplit, fun q t hq hqt => ?_⟩
      have hle := (hq.length_le t).2
      rw [← hqt] at hle
      have htotal := congrArg List.length hsplit
      have htotal' := congrArg List.length hqt
      rw [List.length_append] at htotal htotal'
      omega
    · refine .inr ⟨fun q t hq hqt => hmant ?_, rfl⟩
      rw [hqt]
      exact (hq.length_le t).1

/-! ## The texts that are read exactly -/

/-- The characters that `strtod` steps over in front of a digit: the blanks, the signs and
    the dot. -/
def numberMarks : List UInt8 := signMarks ++ [0x2E]

/-- The texts that `strtod` reads as it should: no `e` or `E` follows the mantissa, and the
    mantissa has a digit or the text starts with none of the characters that are stepped
    over. -/
def StrtodExact (nptr : List UInt8) : Prop :=
  startsE (mantissaEnd (afterSign nptr)) = false ∧
    (HasMantissa (afterSign nptr) ∨ ∀ c ∈ nptr.head?, c ∉ numberMarks)

theorem length_takeSign_le (s : List UInt8) : (takeSign s).2.length ≤ s.length := by
  obtain ⟨sign, -, hs⟩ := takeSign_split s
  have hlen := congrArg List.length hs
  rw [List.length_append] at hlen
  omega

theorem length_afterSign_le (s : List UInt8) : (afterSign s).length ≤ s.length :=
  (length_takeSign_le _).trans (List.dropWhile_suffix _).length_le

/-- A blank or a sign at the front is stepped over, and nothing else is. -/
theorem afterSign_cons (c : UInt8) (t : List UInt8) :
    (c ∈ signMarks ∧ (afterSign (c :: t)).length ≤ t.length) ∨
      (c ∉ signMarks ∧ afterSign (c :: t) = c :: t) := by
  by_cases hspace : isspace c = true
  · left
    refine ⟨by_contra fun h => ?_, ?_⟩
    · exact Bool.false_ne_true ((notMem_signMarks_iff.mp h).1.symm.trans hspace)
    · rw [afterSign, List.dropWhile_cons_of_pos hspace]
      exact length_afterSign_le t
  have hdrop : (c :: t).dropWhile isspace = c :: t := List.dropWhile_cons_of_neg hspace
  by_cases hsign : c = 0x2D ∨ c = 0x2B
  · left
    rw [afterSign, hdrop]
    obtain rfl | rfl := hsign
    · exact ⟨by decide, Nat.le_refl _⟩
    · exact ⟨by decide, Nat.le_refl _⟩
  · right
    obtain ⟨hminus, hplus⟩ := not_or.mp hsign
    refine ⟨notMem_signMarks_iff.mpr ⟨Bool.eq_false_iff.mpr hspace, hminus, hplus⟩, ?_⟩
    rw [afterSign, hdrop, takeSign, if_neg hminus, if_neg hplus]

/-- Where there is no digit in the mantissa, a dot is stepped over, and nothing else is. -/
theorem mantissaEnd_cons (hmant : ¬ HasMantissa (c :: t)) :
    (c = 0x2E ∧ (mantissaEnd (c :: t)).length ≤ t.length) ∨
      (c ≠ 0x2E ∧ mantissaEnd (c :: t) = c :: t) := by
  have hdigit : (c :: t).dropWhile isDigit = c :: t :=
    dropWhile_of_not_startsDecimal fun h => hmant (.inl h)
  simp only [mantissaEnd, hdigit, List.head?_cons, Option.some.injEq, List.tail_cons]
  by_cases hdot : c = 0x2E
  · rw [if_pos hdot]
    exact .inl ⟨hdot, length_dropWhile_le t⟩
  · rw [if_neg hdot]
    exact .inr ⟨hdot, rfl⟩

/-- Without a digit in the mantissa, nothing is read exactly if the text starts with none
    of the characters that are stepped over. -/
theorem strtodEnd_eq_self_iff {nptr : List UInt8} (hmant : ¬ HasMantissa (afterSign nptr)) :
    mantissaEnd (afterSign nptr) = nptr ↔ ∀ c ∈ nptr.head?, c ∉ numberMarks := by
  cases nptr with
  | nil => exact iff_of_true rfl (by simp)
  | cons c t =>
    have hmarks : c ∈ numberMarks ↔ c ∈ signMarks ∨ c = 0x2E := by
      rw [numberMarks, List.mem_append, List.mem_singleton]
    -- Whatever takes the first character leaves less than the text.
    have hshort {r : List UInt8} (hc : c ∈ numberMarks) (hr : r.length ≤ t.length) :
        r = c :: t ↔ ∀ d ∈ (c :: t).head?, d ∉ numberMarks := by
      refine iff_of_false (fun h => ?_) fun h => h c rfl hc
      have hlen := congrArg List.length h
      rw [List.length_cons] at hlen
      omega
    obtain ⟨hc, hlen⟩ | ⟨hc, hafter⟩ := afterSign_cons c t
    · exact hshort (hmarks.mpr (.inl hc)) ((length_mantissaEnd_le _).trans hlen)
    rw [hafter] at hmant ⊢
    obtain ⟨hc', hlen⟩ | ⟨hc', hstay⟩ := mantissaEnd_cons hmant
    · exact hshort (hmarks.mpr (.inr hc')) hlen
    · refine iff_of_true hstay fun d hd => ?_
      obtain rfl : c = d := Option.some.inj hd
      exact fun hmem => (hmarks.mp hmem).elim hc hc'

/-- **Reading floating-point numbers.** For every text, `strtod` returns with the end pointer
    behind the longest number at the front of the text, or at its start if there is none, if
    and only if the text is one of `StrtodExact`. -/
theorem strtod_exact_iff {D : Type} (ops : DoubleOps D) (nptr : List UInt8) :
    (∃ fuel v rest, strtod ops fuel nptr = some (v, rest) ∧ IsRest nptr rest) ↔
      StrtodExact nptr := by
  constructor
  · rintro ⟨fuel, v, rest, hreturn, hrest⟩
    have hend := strtod_eq ops fuel nptr
    rw [hreturn, Option.map_some] at hend
    split_ifs at hend with hE
    obtain rfl : rest = mantissaEnd (afterSign nptr) := Option.some.inj hend
    refine ⟨Bool.eq_false_iff.mpr hE, ?_⟩
    obtain ⟨hmant, -⟩ | ⟨hmant, hself⟩ := isRest_iff.mp hrest
    · exact .inl hmant
    · exact .inr ((strtodEnd_eq_self_iff hmant).mp hself)
  · rintro ⟨hE, hexact⟩
    have hend := strtod_eq ops 0 nptr
    rw [if_neg (Bool.eq_false_iff.mp hE), Option.map_eq_some_iff] at hend
    obtain ⟨⟨v, rest⟩, hreturn, hrest⟩ := hend
    refine ⟨0, v, rest, hreturn, isRest_iff.mpr ?_⟩
    by_cases hmant : HasMantissa (afterSign nptr)
    · have hno : exponentEnd (mantissaEnd (afterSign nptr)) = mantissaEnd (afterSign nptr) :=
        if_neg fun h => Bool.eq_false_iff.mp hE h.1
      exact .inl ⟨hmant, hrest.trans hno.symm⟩
    · have hself := (strtodEnd_eq_self_iff hmant).mpr (hexact.resolve_left hmant)
      exact .inr ⟨hmant, hrest.trans hself⟩

/-- Operations on a type with one number, for runs in which only the end pointer counts. -/
def unitDouble : DoubleOps Unit := ⟨fun _ => (), fun _ _ => (), fun _ _ => (), fun _ _ => ()⟩

/-- `strtod` takes all of `"-"` and `"."`, and does not return from `"1e5"`. -/
theorem strtod_not_exact :
    (strtod unitDouble 0 [0x2D] = some ((), []) ∧ ¬ IsRest [0x2D] []) ∧
    (strtod unitDouble 0 [0x2E] = some ((), []) ∧ ¬ IsRest [0x2E] []) ∧
    ∀ fuel, strtod unitDouble fuel [0x31, 0x65, 0x35] = none := by
  refine ⟨⟨rfl, ?_⟩, ⟨rfl, ?_⟩, fun fuel => ?_⟩
  · rw [isRest_iff]
    decide
  · rw [isRest_iff]
    decide
  · exact Option.map_eq_none_iff.mp (strtod_eq unitDouble fuel [0x31, 0x65, 0x35])

end Mboot.Libc
