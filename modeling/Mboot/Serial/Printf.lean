import Mboot.Libc.Printf

/-!
# The formatter of the kernel log

Model of `serial_printf` and its printers (`stage2/dev/serial.c`, lines 58–115 and
145–220), which send their bytes to the serial port one by one. The port is taken to
accept every byte; the model gives the bytes sent.
-/

namespace Mboot.Serial

open Mboot.Common Mboot.Libc

/-- The digits of lines 67 and 68. -/
def digits (uppercase : Bool) : List UInt8 :=
  [0x30, 0x31, 0x32, 0x33, 0x34, 0x35, 0x36, 0x37, 0x38, 0x39] ++
    if uppercase then [0x41, 0x42, 0x43, 0x44, 0x45, 0x46]
    else [0x61, 0x62, 0x63, 0x64, 0x65, 0x66]

/-- `serial_print_uint` (lines 63–81). A base below 2 does not occur. -/
def serialPrintUint (base : ℕ) (padZero uppercase : Bool) (value : ℕ) (width : ℤ) : List UInt8 :=
  let digit := (digits uppercase).getD (value % base) 0
  if _h : base ≤ value ∧ 2 ≤ base then
    serialPrintUint base padZero uppercase (value / base) (if width > 0 then width - 1 else 0) ++
      [digit]
  else List.replicate (width - 1).toNat (if padZero then 0x30 else 0x20) ++ [digit]
termination_by value
decreasing_by exact Nat.div_lt_self (by omega) (by omega)

/-- `serial_print_int` (lines 83–91). -/
def serialPrintInt (base : ℕ) (padZero uppercase : Bool) (value : BitVec 32) (width : ℤ) :
    List UInt8 :=
  if base = 10 ∧ value.toInt < 0 then
    0x2D :: serialPrintUint base padZero uppercase (-value).toNat width
  else serialPrintUint base padZero uppercase value.toNat width

section

variable {F : Type} (ops : FloatOps F)

/-- The loop over the fraction digits (lines 109–114). -/
def serialFraction : ℕ → F → List UInt8
  | 0, _ => []
  | n + 1, frac =>
    let frac := ops.timesTen frac
    let digit := ops.toInt frac
    fractionChar digit :: serialFraction n (ops.sub frac (ops.ofInt digit))

/-- `serial_print_float` (lines 93–115). -/
def serialPrintFloat (f : F) (width : ℤ) (precision : ℕ) (padZero : Bool) : List UInt8 :=
  let negative := ops.ltZero f
  let f := if negative then ops.neg f else f
  let intPart := ops.toInt f
  (if negative then [0x2D] else []) ++ serialPrintInt 10 padZero false intPart width ++
    0x2E :: serialFraction ops precision (ops.sub f (ops.ofInt intPart))

end

/-- What stands between the percent sign and the conversion. -/
structure SerialSpec where
  padZero : Bool
  width : BitVec 32
  precision : BitVec 32

/-- The characters before the conversion (lines 157–178). -/
def parseSpec (s : List UInt8) : SerialSpec × List UInt8 :=
  let padZero := s.head? == some 0x30
  let s := skipByte 0x30 s
  let (width, s) := scanNumber 0 s
  let (precision, s) := scanPrecision 6 s
  (⟨padZero, width, precision⟩, s)

theorem length_parseSpec_le (s : List UInt8) : (parseSpec s).2.length ≤ s.length :=
  calc (parseSpec s).2.length
    _ ≤ _ := length_scanPrecision_le _ _
    _ ≤ _ := length_scanNumber_le _ _
    _ ≤ s.length := length_skipByte_le _ _

/-- The directives of `serial_printf`. -/
def serialDirective : Directive SerialSpec := ⟨parseSpec, length_parseSpec_le⟩

section

variable {R F : Type} (ops : FloatOps F) (narrow : R → F)

/-- The `switch` (lines 180–216): the number of arguments taken and the bytes sent.
    `narrow` is the cast from `double` to `float`. -/
def serialConversion (spec : SerialSpec) (c : UInt8) (arg : VaArg R) : ℕ × List UInt8 :=
  let width := spec.width.toInt
  if c = 0x63 then (1, [UInt8.ofBitVec (arg.word.setWidth 8)]) -- c
  else if c = 0x73 then (1, stringArg arg.text) -- s
  else if c = 0x64 ∨ c = 0x69 then (1, serialPrintInt 10 spec.padZero false arg.word width) -- d, i
  else if c = 0x75 then (1, serialPrintUint 10 spec.padZero false arg.word.toNat width) -- u
  else if c = 0x78 then (1, serialPrintUint 16 spec.padZero false arg.word.toNat width) -- x
  else if c = 0x58 then (1, serialPrintUint 16 spec.padZero true arg.word.toNat width) -- X
  else if c = 0x66 then -- f
    (1, serialPrintFloat ops (narrow arg.real) width spec.precision.toInt.toNat spec.padZero)
  else if c = percent then (0, [percent])
  else (0, [percent, c])

/-- `serial_printf` (lines 145–220): the bytes sent. `none` if the cursor leaves the
    format. -/
def serialPrintf (fmt : CString) (args : ℕ → VaArg R) : Option (List UInt8) :=
  (formatLoop serialDirective (fun _ => true)
    (fun c (st : ℕ × List UInt8) => (st.1, st.2 ++ [c]))
    (fun spec c st =>
      let r := serialConversion ops narrow spec c (args st.1)
      (st.1 + r.1, st.2 ++ r.2))
    fmt.bytes (0, [])).map Prod.snd

end

end Mboot.Serial
