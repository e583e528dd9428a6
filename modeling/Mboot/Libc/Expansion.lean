import Mboot.Common.Bits
import Mboot.Libc.Printf

/-!
# What the formatters write

A format made of literals and complete conversions is a list of `Piece`s. `expand` is its
full expansion, written down without reference to the code: numbers as their digits in the
base, most significant first, strings and characters as they are.

* `vsnprintf_writes_expansion`: `vsnprintf` stores as much of the expansion as fits before
  a terminator, and returns the smaller of its length and the size given.
* `vfprintf_writes_expansion_iff`: what `__vfprintf` passes on is the expansion, and all
  its stores are inside its buffer, if and only if the conversions between two flushes
  fit: the buffer is flushed only after literals.
* `vfprintf_stores_outside`: the string `"%sx"` with 4096 characters as argument.
-/

namespace Mboot.Libc

open Mboot.Common

/-! ## Pieces of a format -/

/-- What may stand between the percent sign and the conversion, in this order: `-`, `0`, a
    width, a precision, `l` and `z`. -/
structure Flags where
  minus : Bool
  zero : Bool
  width : List (Fin 10)
  precision : Option (List (Fin 10))
  long : Bool
  size : Bool

/-- A conversion without any of them. -/
def noFlags : Flags := ⟨false, false, [], none, false, false⟩

/-- The conversions with an expansion of their own. -/
inductive Conv
  | d
  | i
  | u
  | x
  | upperX
  | p
  | s
  | c
  | percent
  deriving DecidableEq

/-- The character of a conversion. -/
def Conv.char : Conv → UInt8
  | .d => 0x64
  | .i => 0x69
  | .u => 0x75
  | .x => 0x78
  | .upperX => 0x58
  | .p => 0x70
  | .s => 0x73
  | .c => 0x63
  | .percent => Common.percent

/-- A piece of a format: a literal, which is neither the terminator nor the percent sign,
    or a conversion. -/
inductive Piece
  | lit (c : UInt8) (h : c ≠ 0 ∧ c ≠ percent)
  | conv (flags : Flags) (k : Conv)

/-- An optional byte. -/
def optional (b : Bool) (c : UInt8) : List UInt8 := if b then [c] else []

/-- The character of a decimal digit. -/
def digitByte (d : Fin 10) : UInt8 := UInt8.ofNat (0x30 + d.val)

/-- A precision, as it is spelled. -/
def precisionBytes : Option (List (Fin 10)) → List UInt8
  | none => []
  | some ds => 0x2E :: ds.map digitByte

/-- The flags, as they are spelled. -/
def Flags.bytes (f : Flags) : List UInt8 :=
  optional f.minus 0x2D ++ (optional f.zero 0x30 ++ (f.width.map digitByte ++
    (precisionBytes f.precision ++ (optional f.long 0x6C ++ optional f.size 0x7A))))

/-- A piece, as it is spelled. -/
def Piece.bytes : Piece → List UInt8
  | .lit c _ => [c]
  | .conv f k => percent :: (f.bytes ++ [k.char])

theorem digitByte_mem (d : Fin 10) :
    digitByte d ∈ [0x30, 0x31, 0x32, 0x33, 0x34, 0x35, 0x36, 0x37, 0x38, 0x39] := by
  revert d
  decide

/-- The characters of the conversions. -/
def convChars : List UInt8 := [0x64, 0x69, 0x75, 0x78, 0x58, 0x70, 0x73, 0x63, percent]

theorem Conv.char_mem (k : Conv) : k.char ∈ convChars := by
  cases k <;> decide

theorem zero_notMem_optional (b : Bool) {c : UInt8} (hc : c ≠ 0) : 0 ∉ optional b c := by
  cases b
  · simp [optional]
  · simpa [optional] using hc.symm

theorem zero_notMem_digits (ds : List (Fin 10)) : 0 ∉ ds.map digitByte := by
  intro h
  obtain ⟨d, -, hd⟩ := List.mem_map.mp h
  have hmem := digitByte_mem d
  rw [hd] at hmem
  revert hmem
  decide

theorem zero_notMem_precision (p : Option (List (Fin 10))) : 0 ∉ precisionBytes p := by
  cases p with
  | none => simp [precisionBytes]
  | some ds => simpa [precisionBytes] using zero_notMem_digits ds

theorem Piece.zero_notMem (p : Piece) : 0 ∉ p.bytes := by
  cases p with
  | lit c h => simpa [Piece.bytes] using h.1.symm
  | conv f k =>
    have hk : (0 : UInt8) ≠ k.char := by
      intro h
      have hmem := k.char_mem
      rw [← h] at hmem
      revert hmem
      decide
    simp only [Piece.bytes, Flags.bytes, List.mem_cons, List.mem_append, List.not_mem_nil, not_or]
    exact ⟨by decide, ⟨zero_notMem_optional _ (by decide), zero_notMem_optional _ (by decide),
      zero_notMem_digits _, zero_notMem_precision _, zero_notMem_optional _ (by decide),
      zero_notMem_optional _ (by decide)⟩, hk, not_false⟩

/-- The format that the pieces spell. -/
def formatOf (ps : List Piece) : CString where
  bytes := ps.flatMap Piece.bytes
  nul_free := by
    intro h
    obtain ⟨p, -, hp⟩ := List.mem_flatMap.mp h
    exact p.zero_notMem hp

/-! ## The expansion -/

/-- The digits of a number in a base, most significant first. -/
def numeral (base : ℕ) (uppercase : Bool) (n : ℕ) : List UInt8 :=
  if n = 0 then [0x30] else (Nat.digits base n).reverse.map (digitChar uppercase)

/-- A signed number in decimal. -/
def signedNumeral (n : ℤ) : List UInt8 :=
  if n < 0 then 0x2D :: numeral 10 false n.natAbs else numeral 10 false n.natAbs

section Expansion

variable {R : Type}

/-- The text of a conversion. -/
def Conv.text (arg : VaArg R) : Conv → List UInt8
  | .d => signedNumeral arg.word.toInt
  | .i => signedNumeral arg.word.toInt
  | .u => numeral 10 false arg.word.toNat
  | .x => numeral 16 false arg.word.toNat
  | .upperX => numeral 16 true arg.word.toNat
  | .p => 0x30 :: 0x78 :: numeral 16 false arg.word.toNat
  | .s => stringArg arg.text
  | .c => [UInt8.ofBitVec (arg.word.setWidth 8)]
  | .percent => [Common.percent]

/-- Whether a conversion has an argument. -/
def Conv.takes : Conv → Bool
  | .percent => false
  | _ => true

/-- The number of the argument after a conversion. -/
def Conv.after (k : Conv) (next : ℕ) : ℕ := if k.takes then next + 1 else next

/-- The full expansion, with the arguments from number `next` on. -/
def expand (args : ℕ → VaArg R) : ℕ → List Piece → List UInt8
  | _, [] => []
  | next, .lit c _ :: ps => c :: expand args next ps
  | next, .conv _ k :: ps => k.text (args next) ++ expand args (k.after next) ps

end Expansion

/-! ## Reading the pieces -/

/-- The text starts with one of the bytes `l`. -/
def Starts (l s : List UInt8) : Prop := ∃ c ∈ l, ∃ t, s = c :: t

variable {l s : List UInt8} {b : UInt8}

theorem Starts.mono {l' : List UInt8} (hs : Starts l s) (h : l ⊆ l') : Starts l' s := by
  obtain ⟨c, hc, t, rfl⟩ := hs
  exact ⟨c, h hc, t, rfl⟩

theorem Starts.optional (hs : Starts l s) (f : Bool) (c : UInt8) :
    Starts (c :: l) (optional f c ++ s) := by
  cases f
  · exact hs.mono (List.subset_cons_self c l)
  · exact ⟨c, List.mem_cons_self, s, rfl⟩

theorem skipByte_of_starts (hs : Starts l s) (hb : b ∉ l) : skipByte b s = s := by
  obtain ⟨c, hc, t, rfl⟩ := hs
  exact if_neg fun h : c = b => hb (h ▸ hc)

theorem skipByte_optional (hs : Starts l s) (hb : b ∉ l) (f : Bool) :
    skipByte b (optional f b ++ s) = s := by
  cases f
  · exact skipByte_of_starts hs hb
  · exact if_pos rfl

theorem scanNumber_of_starts (hs : Starts l s) (hl : ∀ c ∈ l, isDigit c = false) (n : BitVec 32) :
    (scanNumber n s).2 = s := by
  obtain ⟨c, hc, t, rfl⟩ := hs
  rw [scanNumber, hl c hc, if_neg Bool.false_ne_true]

theorem isDigit_digitByte (d : Fin 10) : isDigit (digitByte d) = true := by
  revert d
  decide

/-- The digits of a number are read to their end. -/
theorem scanNumber_digits (hs : Starts l s) (hl : ∀ c ∈ l, isDigit c = false)
    (ds : List (Fin 10)) (n : BitVec 32) : (scanNumber n (ds.map digitByte ++ s)).2 = s := by
  induction ds generalizing n with
  | nil => exact scanNumber_of_starts hs hl n
  | cons d ds ih =>
    rw [List.map_cons, List.cons_append, scanNumber, isDigit_digitByte, if_pos rfl]
    exact ih _

/-- The flag `0` is the first digit of a width that starts with 0. -/
theorem scanNumber_skipByte (hs : Starts l s) (hl : ∀ c ∈ l, isDigit c = false) (f : Bool)
    (ds : List (Fin 10)) (n : BitVec 32) :
    (scanNumber n (skipByte 0x30 (optional f 0x30 ++ (ds.map digitByte ++ s)))).2 = s := by
  have hdigits := scanNumber_digits hs hl
  cases f
  · cases ds with
    | nil =>
      have hb : (0x30 : UInt8) ∉ l := fun h => by
        have := hl _ h
        revert this
        decide
      rw [show skipByte 0x30 (optional false 0x30 ++ (([] : List (Fin 10)).map digitByte ++ s)) = s
        from skipByte_of_starts hs hb]
      exact scanNumber_of_starts hs hl n
    | cons d ds =>
      rw [show skipByte 0x30 (optional false 0x30 ++ ((d :: ds).map digitByte ++ s)) =
        if digitByte d = 0x30 then ds.map digitByte ++ s
        else (d :: ds).map digitByte ++ s from rfl]
      split_ifs
      · exact hdigits ds n
      · exact hdigits (d :: ds) n
  · exact hdigits ds n

theorem scanPrecision_bytes (hs : Starts l s) (hl : ∀ c ∈ l, isDigit c = false)
    (hdot : 0x2E ∉ l) (p : Option (List (Fin 10))) (n : BitVec 32) :
    (scanPrecision n (precisionBytes p ++ s)).2 = s := by
  cases p with
  | none =>
    obtain ⟨c, hc, t, rfl⟩ := hs
    have hne : ¬ ((precisionBytes none ++ c :: t).head? = some 0x2E) := by
      intro h
      exact hdot (Option.some.inj h ▸ hc)
    rw [scanPrecision, if_neg hne]
    rfl
  | some ds => exact scanNumber_digits hs hl ds 0

theorem Starts.precision (hs : Starts l s) (p : Option (List (Fin 10))) :
    Starts (0x2E :: l) (precisionBytes p ++ s) := by
  cases p with
  | none => exact hs.mono (List.subset_cons_self 0x2E l)
  | some ds => exact ⟨_, List.mem_cons_self, _, rfl⟩

theorem Starts.digits (hs : Starts l s) (ds : List (Fin 10)) :
    Starts ([0x30, 0x31, 0x32, 0x33, 0x34, 0x35, 0x36, 0x37, 0x38, 0x39] ++ l)
      (ds.map digitByte ++ s) := by
  cases ds with
  | nil => exact hs.mono (List.subset_append_right _ l)
  | cons d ds => exact ⟨_, List.mem_append_left _ (digitByte_mem d), _, rfl⟩

/-- The characters before a conversion are read up to the conversion. -/
theorem parseSpec_bytes (f : Flags) (k : Conv) (rest : List UInt8) :
    (parseSpec (f.bytes ++ k.char :: rest)).2 = k.char :: rest := by
  have hconv : Starts convChars (k.char :: rest) := ⟨_, k.char_mem, rest, rfl⟩
  have hsize := hconv.optional f.size 0x7A
  have hlong := hsize.optional f.long 0x6C
  have hprec := hlong.precision f.precision
  have hzero := (hprec.digits f.width).optional f.zero 0x30
  simp only [parseSpec, Flags.bytes, List.append_assoc]
  rw [skipByte_optional hzero (by decide), scanNumber_skipByte hprec (by decide +kernel),
    scanPrecision_bytes hlong (by decide +kernel) (by decide), skipByte_optional hsize (by decide),
    skipByte_optional hconv (by decide)]

section Pieces

variable {σ : Type}

/-- The effect of a piece, with `run` as the effect of a conversion. -/
def Piece.apply (lit : UInt8 → σ → σ) (run : Conv → σ → σ) (st : σ) : Piece → σ
  | .lit c _ => lit c st
  | .conv _ k => run k st

/-- A loop whose conversions do not depend on the flags goes through the pieces. -/
theorem formatLoop_pieces (lit : UInt8 → σ → σ) (conv : PrintfSpec → UInt8 → σ → σ)
    (run : Conv → σ → σ)
    (hrun : ∀ spec k st, conv spec (Conv.char k) st = run k st) (ps : List Piece) (st : σ) :
    formatLoop printfDirective (fun _ => true) lit conv (formatOf ps).bytes st =
      some (ps.foldl (Piece.apply lit run) st) := by
  induction ps generalizing st with
  | nil => exact formatLoop_nil
  | cons p ps ih =>
    cases p with
    | lit c h =>
      exact (formatLoop_lit rfl h.2).trans (ih _)
    | conv f k =>
      have hparse : printfDirective.parse (f.bytes ++ k.char :: ps.flatMap Piece.bytes) =
          ((parseSpec (f.bytes ++ k.char :: ps.flatMap Piece.bytes)).1,
            k.char :: ps.flatMap Piece.bytes) := Prod.ext rfl (parseSpec_bytes f k _)
      have hbytes : (formatOf (.conv f k :: ps)).bytes =
          percent :: (f.bytes ++ k.char :: ps.flatMap Piece.bytes) := by
        simp [formatOf, Piece.bytes]
      rw [hbytes, formatLoop_conv rfl hparse, hrun]
      exact ih _

end Pieces

/-! ## Printing the text of a conversion -/

variable {max : ℕ} {k : Sink}

theorem collectDigits_eq {base : ℕ} (hb : 2 ≤ base) (uppercase : Bool) (n : ℕ) :
    collectDigits base uppercase n = (Nat.digits base n).map (digitChar uppercase) := by
  induction n using Nat.strong_induction_on with
  | _ n ih =>
    rw [collectDigits]
    split_ifs with h
    · obtain rfl : n = 0 := by omega
      simp
    · have hpos : 0 < n := by omega
      rw [ih _ (Nat.div_lt_self hpos hb), Nat.digits_def' hb hpos, List.map_cons]

theorem numberDigits_reverse {base : ℕ} (hb : 2 ≤ base) (uppercase : Bool) (n : ℕ) :
    (numberDigits base uppercase n).reverse = numeral base uppercase n := by
  rw [numberDigits, numeral]
  split_ifs
  · rfl
  · rw [collectDigits_eq hb, List.map_reverse]

/-- The number `__print_int` prints is the absolute value, also that of the smallest
    `int`. -/
theorem printInt_eq (n : BitVec 32) :
    printInt max n 10 false k = printStr max (signedNumeral n.toInt) k := by
  rw [printInt, signedNumeral]
  by_cases h : n.toInt < 0
  · rw [if_pos ⟨h, rfl⟩, if_pos h, numberDigits_reverse (by decide), toNat_neg_eq_natAbs h]
    rfl
  · rw [if_neg fun h' => h h'.1, if_neg h, numberDigits_reverse (by decide), toNat_eq_natAbs h]

theorem printUnsigned_eq {base : ℕ} (hb : 2 ≤ base) (n : ℕ) (uppercase : Bool) :
    printUnsigned max n base uppercase k = printStr max (numeral base uppercase n) k := by
  rw [printUnsigned, numberDigits_reverse hb]

variable {R : Type} (ops : FloatOps R)

/-- Each conversion prints its text. -/
theorem convertNext_eq (exponents : Bool) (args : ℕ → VaArg R) (spec : PrintfSpec) (conv : Conv)
    (next : ℕ) : convertNext ops exponents max args spec conv.char next k =
      (conv.after next, printStr max (conv.text (args next)) k) := by
  cases conv with
  | d | i => exact congrArg (Prod.mk _) (printInt_eq _)
  | u | x | upperX | p => exact congrArg (Prod.mk _) (printUnsigned_eq (by decide) _ _)
  | s | c => rfl
  | percent =>
    rw [show convertNext ops exponents max args spec Conv.percent.char next k =
      (next, printChar max Common.percent k) by cases exponents <;> rfl]
    rfl

/-! ## `vsnprintf` -/

/-- The text printed so far into the memory `buf`, cut off at `max`. -/
structure Printed (buf : ℕ → UInt8) (max : ℕ) (text : List UInt8) (k : Sink) : Prop where
  null : k.null = false
  pos : k.pos = min text.length max
  text : slice k.buf 0 k.pos = text.take max
  rest : ∀ i, k.pos ≤ i → k.buf i = buf i

theorem slice_update_snoc (buf : ℕ → UInt8) (n : ℕ) (c : UInt8) :
    slice (Function.update buf n c) 0 (n + 1) = slice buf 0 n ++ [c] := by
  have hbelow : slice (Function.update buf n c) 0 n = slice buf 0 n :=
    slice_congr fun i hi => Function.update_of_ne (by omega) _ _
  rw [slice_add, hbelow]
  simp [slice]

variable {buf : ℕ → UInt8} {text : List UInt8}

theorem Printed.char (hk : Printed buf max text k) (c : UInt8) :
    Printed buf max (text ++ [c]) (printChar max c k) := by
  have hpos := hk.pos
  rw [printChar]
  by_cases hlt : k.pos < max
  · rw [if_pos ⟨hk.null, hlt⟩]
    have hlen : k.pos = text.length := by omega
    refine ⟨hk.null, ?_, ?_, fun i hi => ?_⟩
    · simp only [List.length_append, List.length_singleton]
      omega
    · rw [slice_update_snoc, hk.text, List.take_of_length_le (by omega),
        List.take_of_length_le (by simp only [List.length_append, List.length_singleton]; omega)]
    · have hold := hk.rest i (Nat.le_of_lt hi)
      exact (Function.update_of_ne (Nat.ne_of_gt hi) _ _).trans hold
  · rw [if_neg fun h => hlt h.2]
    refine ⟨hk.null, ?_, ?_, hk.rest⟩
    · simp only [List.length_append, List.length_singleton]
      omega
    · rw [hk.text, List.take_append_of_le_length (by omega)]

theorem Printed.str (hk : Printed buf max text k) (s : List UInt8) :
    Printed buf max (text ++ s) (printStr max s k) := by
  induction s generalizing text k with
  | nil => simpa [printStr] using hk
  | cons c s ih =>
    rw [printStr, List.append_cons]
    exact ih (hk.char c)

/-- The effect of a conversion of `vsnprintf`. -/
def writeText (max : ℕ) (args : ℕ → VaArg R) (conv : Conv) (st : ℕ × Sink) : ℕ × Sink :=
  (conv.after st.1, printStr max (conv.text (args st.1)) st.2)

/-- Going through the pieces prints their expansion. -/
theorem Printed.pieces (args : ℕ → VaArg R) (ps : List Piece) (next : ℕ)
    (hk : Printed buf max text k) :
    Printed buf max (text ++ expand args next ps)
      (ps.foldl (Piece.apply (writeLiteral max) (writeText max args)) (next, k)).2 := by
  induction ps generalizing text k next with
  | nil => simpa [expand] using hk
  | cons p ps ih =>
    cases p with
    | lit c h =>
      rw [expand, List.append_cons]
      exact ih _ (hk.char c)
    | conv f conv =>
      rw [expand, ← List.append_assoc]
      exact ih _ (hk.str _)

/-- The terminator stands behind as much of the text as fits before it. -/
theorem Printed.terminate (hk : Printed buf max text k) (hmax : 1 ≤ max) :
    slice (terminate max k) 0 (min text.length (max - 1) + 1) = text.take (max - 1) ++ [0] ∧
      ∀ i, min text.length (max - 1) < i → Libc.terminate max k i = buf i := by
  have hpos := hk.pos
  rw [Libc.terminate, hk.null, if_neg Bool.false_ne_true]
  by_cases hlt : k.pos < max
  · have hmin : min text.length (max - 1) = k.pos := by omega
    rw [if_pos hlt, hmin, slice_update_snoc, hk.text]
    refine ⟨?_, fun i hi => ?_⟩
    · rw [List.take_of_length_le (by omega), List.take_of_length_le (by omega)]
    · rw [Function.update_of_ne (Nat.ne_of_gt hi)]
      exact hk.rest i (Nat.le_of_lt hi)
  · have hmin : min text.length (max - 1) = max - 1 := by omega
    have htext : slice k.buf 0 (max - 1) = text.take (max - 1) := by
      have h := congrArg (List.take (max - 1)) hk.text
      rwa [take_slice, List.take_take, show min (max - 1) k.pos = max - 1 by omega,
        show min (max - 1) max = max - 1 by omega] at h
    rw [if_neg hlt, if_pos (show max > 0 from hmax), hmin, slice_update_snoc, htext]
    refine ⟨rfl, fun i hi => ?_⟩
    rw [Function.update_of_ne (Nat.ne_of_gt hi)]
    exact hk.rest i (by omega)

/-- `vsnprintf` prints the expansion and terminates it. -/
theorem vsnprintf_pieces (args : ℕ → VaArg R) (ps : List Piece) (buf : ℕ → UInt8) (size : ℕ) :
    ∃ k, Printed buf size (expand args 0 ps) k ∧
      vsnprintf ops false buf size (formatOf ps) args =
        some (BitVec.ofNat 32 k.pos, terminate size k) := by
  have hstart : Printed buf size [] ⟨false, buf, 0⟩ :=
    ⟨rfl, by simp, by simp [slice], fun i _ => rfl⟩
  have hrun := formatLoop_pieces (writeLiteral size) (writeConversion ops size args)
    (writeText size args)
    (fun spec conv st => convertNext_eq ops true args spec conv st.1) ps (0, ⟨false, buf, 0⟩)
  refine ⟨_, hstart.pieces args ps 0, ?_⟩
  rw [vsnprintf, hrun, Option.map_some]

/-- The string in a buffer of `size` bytes: the bytes before the terminator. -/
def stringIn (size : ℕ) (buf : ℕ → UInt8) : List UInt8 := (slice buf 0 size).takeWhile (· ≠ 0)

/-- The string that `vsnprintf` leaves is what fits of the expansion. -/
theorem Printed.stringIn (hk : Printed buf max text k) (hmax : 1 ≤ max) (htext : 0 ∉ text) :
    stringIn max (Libc.terminate max k) = text.take (max - 1) := by
  have hslice := (hk.terminate hmax).1
  have hne : ∀ c ∈ text.take (max - 1), decide (c ≠ 0) = true := by
    intro c hc
    refine decide_eq_true fun h => htext ?_
    rw [← h]
    exact List.mem_of_mem_take hc
  have hsplit := slice_add (Libc.terminate max k) 0 (min text.length (max - 1) + 1)
    (max - (min text.length (max - 1) + 1))
  rw [Nat.add_sub_cancel' (by omega), hslice] at hsplit
  rw [Libc.stringIn, hsplit, List.append_assoc, List.takeWhile_append_of_pos hne]
  simp

theorem digitChar_ne_zero (uppercase : Bool) {d : ℕ} (hd : d < 16) : digitChar uppercase d ≠ 0 := by
  interval_cases d <;> cases uppercase <;> decide

theorem zero_notMem_numeral {base : ℕ} (hb : 2 ≤ base) (hb' : base ≤ 16) (uppercase : Bool)
    (n : ℕ) : 0 ∉ numeral base uppercase n := by
  rw [numeral]
  split_ifs
  · decide
  · intro h
    obtain ⟨d, hd, hzero⟩ := List.mem_map.mp h
    have hlt := Nat.digits_lt_base hb (List.mem_reverse.mp hd)
    exact digitChar_ne_zero uppercase (by omega) hzero

theorem zero_notMem_signedNumeral (n : ℤ) : 0 ∉ signedNumeral n := by
  have h : 0 ∉ numeral 10 false n.natAbs := zero_notMem_numeral (by decide) (by decide) _ _
  rw [signedNumeral]
  split_ifs
  · simpa using h
  · exact h

/-! ## `__vfprintf` -/

/-- What `__vfprintf` has passed on or holds in its buffer. -/
def Printing.emitted (st : Printing) : List UInt8 :=
  st.written.flatten ++ slice st.sink.buf 0 st.sink.pos

/-- The buffer is there, and the position at most its size. -/
structure Printing.Ok (st : Printing) : Prop where
  null : st.sink.null = false
  pos : st.sink.pos ≤ bufSize

/-- The effect of a conversion of `__vfprintf`. -/
def printText (args : ℕ → VaArg R) (conv : Conv) (st : Printing) : Printing :=
  { st with
    next := conv.after st.next
    sink := printStr bufSize (conv.text (args st.next)) st.sink }

/-- The position after a literal. -/
def afterLiteral (pos : ℕ) : ℕ := if pos + 1 ≥ bufSize - 8 then 0 else pos + 1

/-- With `pos` characters in the buffer, no conversion goes beyond its end and no literal
    is met when it is full. -/
def Fits (args : ℕ → VaArg R) : ℕ → ℕ → List Piece → Prop
  | _, _, [] => True
  | next, pos, .lit _ _ :: ps => pos < bufSize ∧ Fits args next (afterLiteral pos) ps
  | next, pos, .conv _ k :: ps =>
    pos + (k.text (args next)).length ≤ bufSize ∧
      Fits args (k.after next) (pos + (k.text (args next)).length) ps

variable {st : Printing} {args : ℕ → VaArg R}

theorem Printing.flush_emitted (st : Printing) : st.flush.emitted = st.emitted := by
  simp [Printing.emitted, Printing.flush, slice]

theorem Printing.Ok.literal (hst : st.Ok) (c : UInt8) :
    (printLiteral c st).Ok ∧ (printLiteral c st).emitted = st.emitted ++ [c] ∧
      (printLiteral c st).sink.pos = afterLiteral st.sink.pos ∧
      (printLiteral c st).next = st.next ∧
      (printLiteral c st).outside = (st.outside || decide (bufSize ≤ st.sink.pos)) := by
  have hstore : (st.store c).emitted = st.emitted ++ [c] := by
    simp [Printing.emitted, Printing.store, slice_update_snoc]
  rw [printLiteral, afterLiteral]
  by_cases hflush : (st.store c).sink.pos ≥ bufSize - 8
  · simp only [if_pos hflush]
    refine ⟨⟨hst.null, Nat.zero_le _⟩, ?_, (if_pos hflush).symm, rfl, rfl⟩
    rw [Printing.flush_emitted, hstore]
  · simp only [if_neg hflush]
    exact ⟨⟨hst.null, (not_le.mp hflush).le.trans (Nat.sub_le _ _)⟩, hstore,
      (if_neg hflush).symm, rfl, rfl⟩

theorem Printing.Ok.conversion (hst : st.Ok) (args : ℕ → VaArg R) (conv : Conv) :
    (printText args conv st).Ok ∧
      (printText args conv st).sink.pos =
        min (st.sink.pos + (conv.text (args st.next)).length) bufSize ∧
      (printText args conv st).emitted = st.written.flatten ++
        (slice st.sink.buf 0 st.sink.pos ++ conv.text (args st.next)).take bufSize := by
  have hbefore : Printed st.sink.buf bufSize (slice st.sink.buf 0 st.sink.pos) st.sink := by
    refine ⟨hst.null, ?_, ?_, fun i _ => rfl⟩
    · rw [length_slice, Nat.min_eq_left hst.pos]
    · rw [List.take_of_length_le (by simpa using hst.pos)]
  have hafter := hbefore.str (conv.text (args st.next))
  have hpos := hafter.pos
  rw [List.length_append, length_slice] at hpos
  refine ⟨⟨hafter.null, ?_⟩, hpos, ?_⟩
  · exact hpos.trans_le (Nat.min_le_right _ _)
  · rw [Printing.emitted]
    exact congrArg _ hafter.text

/-- A conversion that fits is printed whole. -/
theorem Printing.Ok.conversion_fits (hst : st.Ok) {conv : Conv}
    (hfits : st.sink.pos + (conv.text (args st.next)).length ≤ bufSize) :
    (printText args conv st).emitted = st.emitted ++ conv.text (args st.next) := by
  rw [(hst.conversion args conv).2.2, List.take_of_length_le (by simpa using hfits),
    Printing.emitted, List.append_assoc]

theorem Printing.Ok.length_conversion (hst : st.Ok) (args : ℕ → VaArg R) (conv : Conv) :
    (printText args conv st).emitted.length = st.emitted.length +
      min (conv.text (args st.next)).length (bufSize - st.sink.pos) := by
  have hpos := hst.pos
  rw [(hst.conversion args conv).2.2, Printing.emitted]
  simp only [List.length_append, List.length_take, length_slice]
  omega

/-- The pieces, one after the other. -/
def printPieces (args : ℕ → VaArg R) (ps : List Piece) (st : Printing) : Printing :=
  ps.foldl (Piece.apply printLiteral (printText args)) st

/-- Pieces that fit are printed whole, and inside the buffer. -/
theorem Printing.Ok.pieces_fit (hst : st.Ok) {ps : List Piece}
    (hfits : Fits args st.next st.sink.pos ps) :
    (printPieces args ps st).emitted = st.emitted ++ expand args st.next ps ∧
      (printPieces args ps st).outside = st.outside := by
  induction ps generalizing st with
  | nil => exact ⟨(List.append_nil _).symm, rfl⟩
  | cons p ps ih =>
    cases p with
    | lit c h =>
      obtain ⟨hok, hemitted, hpos, hnext, houtside⟩ := hst.literal c
      obtain ⟨hlt, hrest⟩ := hfits
      obtain ⟨htext, hout⟩ := ih hok (by rwa [hnext, hpos])
      refine ⟨htext.trans ?_, hout.trans ?_⟩
      · rw [hemitted, hnext, expand, ← List.append_cons]
      · rw [houtside, decide_eq_false (not_le.mpr hlt), Bool.or_false]
    | conv f conv =>
      obtain ⟨hlen, hrest⟩ := hfits
      obtain ⟨hok, hpos, -⟩ := hst.conversion args conv
      rw [Nat.min_eq_left hlen] at hpos
      obtain ⟨htext, hout⟩ := ih hok (by rwa [hpos])
      refine ⟨htext.trans ?_, hout⟩
      rw [hst.conversion_fits hlen, expand, List.append_assoc]
      rfl

/-- Never more is printed than the expansion, and a store outside the buffer is not
    forgotten. -/
theorem Printing.Ok.pieces_le (hst : st.Ok) (ps : List Piece) :
    (printPieces args ps st).emitted.length ≤
        st.emitted.length + (expand args st.next ps).length ∧
      (st.outside = true → (printPieces args ps st).outside = true) := by
  induction ps generalizing st with
  | nil => exact ⟨Nat.le_refl _, id⟩
  | cons p ps ih =>
    cases p with
    | lit c h =>
      obtain ⟨hok, hemitted, -, hnext, houtside⟩ := hst.literal c
      obtain ⟨hle, hout⟩ := ih hok
      refine ⟨hle.trans ?_, fun h => hout ?_⟩
      · rw [hemitted, hnext, expand]
        simp only [List.length_append, List.length_cons, List.length_nil]
        omega
      · rw [houtside, h, Bool.true_or]
    | conv f conv =>
      obtain ⟨hle, hout⟩ := ih (hst.conversion args conv).1
      refine ⟨hle.trans ?_, hout⟩
      rw [hst.length_conversion, expand, List.length_append]
      have hnext : (printText args conv st).next = conv.after st.next := rfl
      rw [hnext]
      omega

/-- If all of the expansion is printed, inside the buffer, the pieces fit. -/
theorem Printing.Ok.fits_of_pieces (hst : st.Ok) (ps : List Piece)
    (hlen : (printPieces args ps st).emitted.length =
      st.emitted.length + (expand args st.next ps).length)
    (hout : (printPieces args ps st).outside = false) : Fits args st.next st.sink.pos ps := by
  induction ps generalizing st with
  | nil => trivial
  | cons p ps ih =>
    cases p with
    | lit c h =>
      obtain ⟨hok, hemitted, hpos, hnext, houtside⟩ := hst.literal c
      rw [expand, List.length_cons] at hlen
      refine ⟨?_, ?_⟩
      · by_contra hfull
        have hset : (printLiteral c st).outside = true := by
          rw [houtside, decide_eq_true (not_lt.mp hfull), Bool.or_true]
        exact Bool.false_ne_true (hout.symm.trans ((hok.pieces_le ps).2 hset))
      · rw [← hpos, ← hnext]
        refine ih hok (hlen.trans ?_) hout
        rw [hemitted, hnext, List.length_append, List.length_singleton]
        omega
    | conv f conv =>
      obtain ⟨hok, hpos, -⟩ := hst.conversion args conv
      have hle : (printPieces args ps (printText args conv st)).emitted.length ≤
          (printText args conv st).emitted.length + (expand args (conv.after st.next) ps).length :=
        (hok.pieces_le ps).1
      have hlen' : (printPieces args ps (printText args conv st)).emitted.length =
        st.emitted.length + (expand args st.next (.conv f conv :: ps)).length := hlen
      have hprinted := hst.length_conversion args conv
      rw [expand, List.length_append] at hlen'
      have hstart := hst.pos
      have hfits : st.sink.pos + (conv.text (args st.next)).length ≤ bufSize := by omega
      rw [Nat.min_eq_left hfits] at hpos
      refine ⟨hfits, ?_⟩
      rw [← hpos]
      refine ih hok (hlen'.trans ?_) hout
      rw [hst.conversion_fits hfits, List.length_append]
      exact (Nat.add_assoc _ _ _).symm

/-- What is left in the buffer is passed on at the end. -/
theorem vfprintf_pieces (buf : ℕ → UInt8) (args : ℕ → VaArg R) (ps : List Piece) :
    ∃ st, vfprintf ops buf (formatOf ps) args = some st ∧
      st.written.flatten = (printPieces args ps ⟨0, ⟨false, buf, 0⟩, [], false⟩).emitted ∧
      st.outside = (printPieces args ps ⟨0, ⟨false, buf, 0⟩, [], false⟩).outside := by
  have hrun := formatLoop_pieces printLiteral (printConversion ops args) (printText args)
    (fun spec conv st => by rw [printConversion, convertNext_eq]; rfl)
    ps ⟨0, ⟨false, buf, 0⟩, [], false⟩
  rw [← printPieces] at hrun
  rw [vfprintf, hrun, Option.map_some]
  refine ⟨_, rfl, ?_⟩
  split_ifs with hpos
  · refine ⟨?_, rfl⟩
    simp [Printing.emitted, Printing.flush]
  · refine ⟨?_, rfl⟩
    rw [Printing.emitted, Nat.eq_zero_of_not_pos hpos]
    simp [slice]

/-- **What `__vfprintf` passes to `fwrite`.** For every format of literals and complete
    conversions and all arguments, the strings passed on make up the expansion, and every
    store is inside the buffer, if and only if the pieces fit: counting the characters since
    the last flush, which follows a literal that brings them to 4088 or more, no conversion
    brings them above 4096 and no literal is met at 4096. -/
theorem vfprintf_writes_expansion_iff (args : ℕ → VaArg R) (ps : List Piece)
    (buf : ℕ → UInt8) :
    (∃ st, vfprintf ops buf (formatOf ps) args = some st ∧
        st.written.flatten = expand args 0 ps ∧ st.outside = false) ↔ Fits args 0 0 ps := by
  have hstart : (⟨0, ⟨false, buf, 0⟩, [], false⟩ : Printing).Ok := ⟨rfl, Nat.zero_le _⟩
  obtain ⟨st, hrun, hwritten, houtside⟩ := vfprintf_pieces ops buf args ps
  constructor
  · rintro ⟨st', hrun', htext, hout⟩
    obtain rfl : st = st' := Option.some.inj (hrun.symm.trans hrun')
    refine hstart.fits_of_pieces ps ?_ (houtside.symm.trans hout)
    rw [← hwritten, htext]
    exact (Nat.zero_add _).symm
  · intro hfits
    obtain ⟨htext, hout⟩ := hstart.pieces_fit hfits
    exact ⟨st, hrun, hwritten.trans htext, houtside.trans hout⟩

/-- The string of `n` bytes `c`. -/
def repeated (n : ℕ) (c : UInt8) (hc : c ≠ 0) : CString :=
  ⟨List.replicate n c, fun h => hc (List.eq_of_mem_replicate h).symm⟩

/-- The format `"%sx"`. -/
def stringThenLiteral : List Piece :=
  [.conv noFlags .s, .lit 0x78 (by decide)]

/-- A literal that follows a string of the size of the buffer is stored behind it. -/
theorem vfprintf_outside_of_full {text : CString} (htext : text.bytes.length = bufSize)
    (buf : ℕ → UInt8) (arg : VaArg R) (harg : arg.text = some text) :
    ∃ st, vfprintf ops buf (formatOf stringThenLiteral) (fun _ => arg) = some st ∧
      st.outside = true := by
  obtain ⟨st, hrun, -, houtside⟩ := vfprintf_pieces ops buf (fun _ => arg) stringThenLiteral
  refine ⟨st, hrun, houtside.trans ?_⟩
  have hstart : (⟨0, ⟨false, buf, 0⟩, [], false⟩ : Printing).Ok := ⟨rfl, Nat.zero_le _⟩
  obtain ⟨hok, hpos, -⟩ := hstart.conversion (fun _ => arg) .s
  have hfull : bufSize ≤ (printText (fun _ => arg) .s
      ⟨0, ⟨false, buf, 0⟩, [], false⟩).sink.pos := by
    rw [hpos, Conv.text, harg, stringArg, htext, Nat.zero_add, Nat.min_self]
  exact (hok.literal 0x78).2.2.2.2.trans (by rw [decide_eq_true hfull, Bool.or_true])

/-- `"%sx"` with a string of 4096 characters: the string fills the buffer, which is not
    flushed after a conversion. -/
theorem vfprintf_stores_outside :
    ∃ st, vfprintf noFloat (fun _ => 0) (formatOf stringThenLiteral)
      (fun _ => ⟨0, some (repeated 4096 0x61 (by decide)), ()⟩) = some st ∧ st.outside = true :=
  vfprintf_outside_of_full noFloat List.length_replicate _ _ rfl

end Mboot.Libc
