import Mboot.Common.FormatLoop
import Mboot.Common.Memory

/-!
# The formatters of the C library

Model of `vsnprintf`, `__vfprintf` and the printers they share (`user/src/libc.c`, lines
716–947 and 965–1073). Output goes through `__print_char`, which drops what does not fit;
only `__vfprintf` stores its literals itself, without a test.

Flags, width and length are read and have no effect: `long` and `int` have the same 32
bits. Arguments are given as `va_arg` reads them, so that a conversion always finds an
argument of its type.
-/

namespace Mboot.Libc

open Mboot.Common

/-! ## Strings, arguments and floating-point numbers -/

/-- A string with its terminator, given by the bytes before it. -/
structure CString where
  bytes : List UInt8
  nul_free : 0 ∉ bytes

/-- An argument of a variadic call, as each type `va_arg` asks for. A string pointer may
    be null. -/
structure VaArg (R : Type) where
  word : BitVec 32
  text : Option CString
  real : R

/-- The operations on a floating-point type that the formatters use: `toInt` and `toWide`
    are the casts to `int` and `unsigned long long`, `ofInt` and `ofWide` those back. -/
structure FloatOps (R : Type) where
  ltZero : R → Bool
  neg : R → R
  sub : R → R → R
  timesTen : R → R
  toInt : R → BitVec 32
  ofInt : BitVec 32 → R
  toWide : R → BitVec 64
  ofWide : BitVec 64 → R

/-- Operations for calls that print no floating-point number. -/
def noFloat : FloatOps Unit :=
  ⟨fun _ => false, id, fun _ _ => (), id, fun _ => 0, fun _ => (), fun _ => 0, fun _ => ()⟩

/-! ## Printers -/

/-- The pointer `*str` with the memory behind it, and the position `*pos`. -/
structure Sink where
  null : Bool
  buf : ℕ → UInt8
  pos : ℕ

/-- `__print_char` (lines 716–720). -/
def printChar (max : ℕ) (c : UInt8) (k : Sink) : Sink :=
  if k.null = false ∧ k.pos < max then
    { k with buf := Function.update k.buf k.pos c, pos := k.pos + 1 }
  else k

/-- `__print_str` (lines 722–725). -/
def printStr (max : ℕ) : List UInt8 → Sink → Sink
  | [], k => k
  | c :: s, k => printStr max s (printChar max c k)

/-- The character of a digit (lines 745 and 762). -/
def digitChar (uppercase : Bool) (d : ℕ) : UInt8 :=
  UInt8.ofNat (if d < 10 then 0x30 + d else (if uppercase then 0x41 else 0x61) + d - 10)

/-- The digits of a number other than 0 as the loops of lines 743–747 and 760–764 collect
    them, the last one first. A base below 2 does not occur. -/
def collectDigits (base : ℕ) (uppercase : Bool) (n : ℕ) : List UInt8 :=
  if _h : n = 0 ∨ base < 2 then []
  else digitChar uppercase (n % base) :: collectDigits base uppercase (n / base)
termination_by n
decreasing_by exact Nat.div_lt_self (by omega) (by omega)

/-- `buf` before it is emitted backwards. -/
def numberDigits (base : ℕ) (uppercase : Bool) (n : ℕ) : List UInt8 :=
  if n = 0 then [0x30] else collectDigits base uppercase n

/-- `__print_unsigned` (lines 753–768). -/
def printUnsigned (max val base : ℕ) (uppercase : Bool) (k : Sink) : Sink :=
  printStr max (numberDigits base uppercase val).reverse k

/-- `__print_int` (lines 727–751). -/
def printInt (max : ℕ) (val : BitVec 32) (base : ℕ) (uppercase : Bool) (k : Sink) : Sink :=
  if val.toInt < 0 ∧ base = 10 then
    printStr max (numberDigits base uppercase (-val).toNat).reverse (printChar max 0x2D k)
  else printStr max (numberDigits base uppercase val.toNat).reverse k

/-- The character `'0' + d`. -/
def fractionChar (d : BitVec 32) : UInt8 := UInt8.ofBitVec ((0x30#32 + d).setWidth 8)

section Printers

variable {R : Type} (ops : FloatOps R) (max : ℕ)

/-- The loop over the fraction digits (lines 786–791 and 814–821), with whether a digit
    other than 0 has occurred. -/
def printFraction : ℕ → R → Bool → Sink → Bool × Sink
  | 0, _, nonzero, k => (nonzero, k)
  | n + 1, frac, nonzero, k =>
    let frac := ops.timesTen frac
    let d := ops.toInt frac
    printFraction n (ops.sub frac (ops.ofInt d)) (nonzero || d != 0)
      (printChar max (fractionChar d) k)

/-- The sign and the integer part (lines 777–782 and 800–806), with the number without
    its sign and the integer part. -/
def printWhole (val : R) (k : Sink) : R × BitVec 64 × Sink :=
  let (val, k) := if ops.ltZero val then (ops.neg val, printChar max 0x2D k) else (val, k)
  let intPart := ops.toWide val
  -- `__print_unsigned` takes an `unsigned long` of 32 bits.
  (val, intPart, printUnsigned max (intPart.toNat % 2 ^ 32) 10 false k)

/-- The number of fraction digits, 6 if no precision is given. -/
def fractionDigits (precision : BitVec 32) : ℕ :=
  if precision.toInt < 0 then 6 else precision.toInt.toNat

/-- `__print_double_f` (lines 770–793). -/
def printDoubleF (val : R) (precision : BitVec 32) (k : Sink) : Sink :=
  let (val, intPart, k) := printWhole ops max val k
  if fractionDigits precision > 0 then
    (printFraction ops max (fractionDigits precision) (ops.sub val (ops.ofWide intPart)) false
      (printChar max 0x2E k)).2
  else k

/-- The loop that drops trailing zeros (lines 828–829), with `end` as recursion
    argument. -/
def trimZeros (buf : ℕ → UInt8) (low : ℕ) : ℕ → ℕ
  | 0 => 0
  | e + 1 => if e + 1 > low ∧ buf e = 0x30 then trimZeros buf low e else e + 1

/-- `__print_double_g` (lines 795–832). -/
def printDoubleG (val : R) (precision : BitVec 32) (k : Sink) : Sink :=
  let (val, intPart, k) := printWhole ops max val k
  if fractionDigits precision > 0 then
    let dotPos := k.pos
    let (nonzero, k) := printFraction ops max (fractionDigits precision)
      (ops.sub val (ops.ofWide intPart)) false (printChar max 0x2E k)
    if nonzero then
      if k.null then k else { k with pos := trimZeros k.buf (dotPos + 1) k.pos }
    else { k with pos := dotPos }
  else k

end Printers

/-! ## Directives -/

/-- What stands between the percent sign and the conversion. -/
structure PrintfSpec where
  width : BitVec 32
  precision : BitVec 32
  long : Bool

/-- A decimal digit. -/
def isDigit (c : UInt8) : Bool := 0x30 ≤ c && c ≤ 0x39

/-- `if (*format == b) format++`. -/
def skipByte (b : UInt8) : List UInt8 → List UInt8
  | [] => []
  | c :: s => if c = b then s else c :: s

/-- The loop that reads a width or a precision; `int` wraps around. -/
def scanNumber (n : BitVec 32) : List UInt8 → BitVec 32 × List UInt8
  | [] => (n, [])
  | c :: s =>
    if isDigit c then scanNumber (n * 10 + (c.toBitVec.setWidth 32 - 0x30)) s else (n, c :: s)

/-- A precision, if a dot announces one. -/
def scanPrecision (default : BitVec 32) (s : List UInt8) : BitVec 32 × List UInt8 :=
  if s.head? = some 0x2E then scanNumber 0 s.tail else (default, s)

theorem length_skipByte_le (b : UInt8) (s : List UInt8) : (skipByte b s).length ≤ s.length := by
  cases s with
  | nil => exact Nat.le_refl _
  | cons c s =>
    rw [skipByte]
    split_ifs
    · exact Nat.le_succ _
    · exact Nat.le_refl _

theorem length_scanNumber_le (n : BitVec 32) (s : List UInt8) :
    (scanNumber n s).2.length ≤ s.length := by
  induction s generalizing n with
  | nil => exact Nat.le_refl _
  | cons c s ih =>
    rw [scanNumber]
    split_ifs
    · exact (ih _).trans (Nat.le_succ _)
    · exact Nat.le_refl _

theorem length_scanPrecision_le (default : BitVec 32) (s : List UInt8) :
    (scanPrecision default s).2.length ≤ s.length := by
  rw [scanPrecision]
  split_ifs
  · have htail : s.tail.length ≤ s.length := by simp
    exact (length_scanNumber_le _ _).trans htail
  · exact Nat.le_refl _

/-- The characters before the conversion (lines 851–879 and 973–1001). -/
def parseSpec (s : List UInt8) : PrintfSpec × List UInt8 :=
  let s := skipByte 0x2D s
  let s := skipByte 0x30 s
  let (width, s) := scanNumber 0 s
  let (precision, s) := scanPrecision (-1) s
  let long := s.head? == some 0x6C
  let s := skipByte 0x6C s
  let s := skipByte 0x7A s
  (⟨width, precision, long⟩, s)

theorem length_parseSpec_le (s : List UInt8) : (parseSpec s).2.length ≤ s.length :=
  calc (parseSpec s).2.length
    _ ≤ _ := length_skipByte_le _ _
    _ ≤ _ := length_skipByte_le _ _
    _ ≤ _ := length_scanPrecision_le _ _
    _ ≤ _ := length_scanNumber_le _ _
    _ ≤ _ := length_skipByte_le _ _
    _ ≤ s.length := length_skipByte_le _ _

/-- The directives of both formatters. -/
def printfDirective : Directive PrintfSpec := ⟨parseSpec, length_parseSpec_le⟩

/-- The cases of the two `switch` statements. -/
inductive Conversion
  | int
  | unsigned (base : ℕ) (uppercase : Bool)
  | pointer
  | string
  | char
  | fixed
  | general
  | percent
  | none
  deriving DecidableEq

/-- The case of a character. Only `vsnprintf` knows `%e` and `%E`. -/
def conversionOf (exponents : Bool) (c : UInt8) : Conversion :=
  if c = 0x64 ∨ c = 0x69 then .int -- d, i
  else if c = 0x75 then .unsigned 10 false -- u
  else if c = 0x78 then .unsigned 16 false -- x
  else if c = 0x58 then .unsigned 16 true -- X
  else if c = 0x70 then .pointer -- p
  else if c = 0x73 then .string -- s
  else if c = 0x63 then .char -- c
  else if c = 0x66 then .fixed -- f
  else if c = 0x67 ∨ c = 0x47 then .general -- g, G
  else if exponents ∧ (c = 0x65 ∨ c = 0x45) then .general -- e, E
  else if c = Common.percent then .percent
  else .none

/-- Whether the case calls `va_arg`. -/
def Conversion.takes : Conversion → Bool
  | .percent => false
  | .none => false
  | _ => true

/-- The string `"(null)"`. -/
def nullText : List UInt8 := [0x28, 0x6E, 0x75, 0x6C, 0x6C, 0x29]

/-- The string of a `%s` argument. -/
def stringArg : Option CString → List UInt8
  | some s => s.bytes
  | none => nullText

section Formatters

variable {R : Type} (ops : FloatOps R)

/-- The `switch` of both formatters (lines 881–941 and 1003–1065). -/
def convert (max : ℕ) (spec : PrintfSpec) (arg : VaArg R) : Conversion → Sink → Sink
  | .int, k => printInt max arg.word 10 false k
  | .unsigned base uppercase, k => printUnsigned max arg.word.toNat base uppercase k
  | .pointer, k => printUnsigned max arg.word.toNat 16 false (printStr max [0x30, 0x78] k)
  | .string, k => printStr max (stringArg arg.text) k
  | .char, k => printChar max (UInt8.ofBitVec (arg.word.setWidth 8)) k
  | .fixed, k => printDoubleF ops max arg.real spec.precision k
  | .general, k => printDoubleG ops max arg.real spec.precision k
  | .percent, k => printChar max Common.percent k
  | .none, k => k

/-- A conversion takes its argument, if it takes one, from the number `next` on. -/
def convertNext (exponents : Bool) (max : ℕ) (args : ℕ → VaArg R) (spec : PrintfSpec)
    (c : UInt8) (next : ℕ) (k : Sink) : ℕ × Sink :=
  let kind := conversionOf exponents c
  (if kind.takes then next + 1 else next, convert ops max spec (args next) kind k)

/-- A literal of `vsnprintf` (lines 968–971), with the number of the next argument. -/
def writeLiteral (size : ℕ) (c : UInt8) (st : ℕ × Sink) : ℕ × Sink :=
  (st.1, printChar size c st.2)

/-- A conversion of `vsnprintf`. -/
def writeConversion (size : ℕ) (args : ℕ → VaArg R) (spec : PrintfSpec) (c : UInt8)
    (st : ℕ × Sink) : ℕ × Sink :=
  convertNext ops true size args spec c st.1 st.2

/-- The terminator `vsnprintf` writes (lines 1068–1071). -/
def terminate (size : ℕ) (k : Sink) : ℕ → UInt8 :=
  if k.null then k.buf
  else if k.pos < size then Function.update k.buf k.pos 0
  else if size > 0 then Function.update k.buf (size - 1) 0
  else k.buf

/-- `vsnprintf` (lines 965–1073) on a buffer that holds `buf`: the `int` returned and the
    buffer. `none` if the cursor leaves the format. -/
def vsnprintf (null : Bool) (buf : ℕ → UInt8) (size : ℕ) (format : CString)
    (args : ℕ → VaArg R) : Option (BitVec 32 × (ℕ → UInt8)) :=
  (formatLoop printfDirective (fun _ => true) (writeLiteral size) (writeConversion ops size args)
    format.bytes (0, ⟨null, buf, 0⟩)).map
    fun st => (BitVec.ofNat 32 st.2.pos, terminate size st.2)

/-- The state of `__vfprintf`: the number of the next argument, its buffer, the byte
    strings passed to `fwrite` so far, and whether a literal was stored outside the buffer.
    What such a store does to other variables is not modelled. -/
structure Printing where
  next : ℕ
  sink : Sink
  written : List (List UInt8)
  outside : Bool

/-- `sizeof(buf)`. -/
def bufSize : ℕ := 4096

/-- `fwrite(buf, 1, pos, stream)` and an empty buffer. -/
def Printing.flush (st : Printing) : Printing :=
  { st with written := st.written ++ [slice st.sink.buf 0 st.sink.pos], sink.pos := 0 }

/-- `buf[pos++] = c`. -/
def Printing.store (c : UInt8) (st : Printing) : Printing :=
  { st with
    sink.buf := Function.update st.sink.buf st.sink.pos c
    sink.pos := st.sink.pos + 1
    outside := st.outside || decide (bufSize ≤ st.sink.pos) }

/-- A literal of `__vfprintf` (lines 842–849). -/
def printLiteral (c : UInt8) (st : Printing) : Printing :=
  let st := st.store c
  if st.sink.pos ≥ bufSize - 8 then st.flush else st

/-- A conversion of `__vfprintf`. -/
def printConversion (args : ℕ → VaArg R) (spec : PrintfSpec) (c : UInt8) (st : Printing) :
    Printing :=
  let r := convertNext ops false bufSize args spec c st.next st.sink
  { st with next := r.1, sink := r.2 }

/-- `__vfprintf` (lines 834–947), with `buf` as what its buffer holds at first. -/
def vfprintf (buf : ℕ → UInt8) (format : CString) (args : ℕ → VaArg R) : Option Printing :=
  (formatLoop printfDirective (fun _ => true) printLiteral (printConversion ops args)
    format.bytes ⟨0, ⟨false, buf, 0⟩, [], false⟩).map
    fun st => if st.sink.pos > 0 then st.flush else st

end Formatters

end Mboot.Libc
