import Mboot.Libc.Expansion
import Mboot.Serial.Printf

/-!
# Where the formatters stop

`vsnprintf`, `__vfprintf`, `strftime` and the kernel's `serial_printf` all step over the
character that names a conversion without asking whether it is the terminator. A format
that ends inside a directive takes them behind its terminator, where the test of the loop
reads the next byte.

Model of `strftime` (`user/src/libc.c`, lines 1473–1530).

* `format_parsers_stop_iff`: for each of the four, the formats on which it stops. For
  `strftime`, whose loop also ends when the buffer is full, these include formats that end
  in a percent sign which it does not reach.
* `format_parsers_overrun`: the format `"%"`.
-/

namespace Mboot.Libc

open Mboot.Common

/-! ## `strftime` -/

/-- The fields of `struct tm` (`time.h`, lines 11–21) that `strftime` reads. -/
structure Tm where
  sec : BitVec 32
  min : BitVec 32
  hour : BitVec 32
  mday : BitVec 32
  mon : BitVec 32
  year : BitVec 32

/-- The buffer and the position in it. -/
structure TimeText where
  buf : ℕ → UInt8
  pos : ℕ

/-- `s[pos++] = c`. -/
def TimeText.store (c : UInt8) (st : TimeText) : TimeText :=
  ⟨Function.update st.buf st.pos c, st.pos + 1⟩

/-- A string stored as long as the position is below `limit` (lines 1486–1487). -/
def TimeText.storeText (limit : ℕ) : List UInt8 → TimeText → TimeText
  | [], st => st
  | c :: s, st => if st.pos < limit then storeText limit s (st.store c) else st

/-- The two digits of a number, the second only if there is room (lines 1491–1493 and the
    cases after it). -/
def TimeText.storeTwo (limit : ℕ) (n : BitVec 32) (st : TimeText) : TimeText :=
  let st := st.store (fractionChar (n.sdiv 10))
  if st.pos < limit then st.store (fractionChar (n.srem 10)) else st

/-- `snprintf(buf, size, format, y)` into a buffer of its own, and the string in it. -/
def snprintfString (size : ℕ) (ps : List Piece) (y : BitVec 32) : List UInt8 :=
  match vsnprintf noFloat false (fun _ => 0) size (formatOf ps) (fun _ => ⟨y, none, ()⟩) with
  | some (_, out) => stringIn size out
  | none => []

/-- The format `"%d"`. -/
def formatD : List Piece := [.conv noFlags .d]

/-- The format `"0"`. -/
def formatZero : List Piece := [.lit 0x30 (by decide)]

/-- The `switch` of `strftime` (lines 1481–1525). -/
def timeConversion (limit : ℕ) (tm : Tm) (c : UInt8) (st : TimeText) : TimeText :=
  if c = 0x59 then st.storeText limit (snprintfString 8 formatD (tm.year + 1900)) -- Y
  else if c = 0x6D then st.storeTwo limit (tm.mon + 1) -- m
  else if c = 0x64 then st.storeTwo limit tm.mday -- d
  else if c = 0x48 then st.storeTwo limit tm.hour -- H
  else if c = 0x4D then st.storeTwo limit tm.min -- M
  else if c = 0x53 then st.storeTwo limit tm.sec -- S
  else if c = 0x73 then st.storeText limit (snprintfString 16 formatZero 0) -- s
  else st.store c

/-- A conversion of `strftime` is named by the character after the percent sign. -/
def timeDirective : Directive Unit := ⟨fun s => ((), s), fun _ => Nat.le_refl _⟩

/-- The second test of the loop (line 1475). -/
def TimeText.hasRoom (limit : ℕ) (st : TimeText) : Bool := decide (st.pos < limit)

/-- `max - 1`. -/
def timeLimit (max : UInt32) : ℕ := (max - 1).toNat

/-- `strftime` (lines 1473–1530): the value returned and the buffer. `none` if the cursor
    leaves the format. -/
def strftime (buf : ℕ → UInt8) (max : UInt32) (format : CString) (tm : Tm) :
    Option (ℕ × (ℕ → UInt8)) :=
  (formatLoop timeDirective (TimeText.hasRoom (timeLimit max)) TimeText.store
    (fun _ => timeConversion (timeLimit max) tm) format.bytes ⟨buf, 0⟩).map
    fun st => (st.pos, Function.update st.buf st.pos 0)

/-! ## How far `strftime` gets -/

/-- The number of characters of a conversion, if there is room for them. -/
def conversionLength (tm : Tm) (c : UInt8) : ℕ :=
  if c = 0x59 then min (signedNumeral (tm.year + 1900).toInt).length 7
  else if c = 0x6D ∨ c = 0x64 ∨ c = 0x48 ∨ c = 0x4D ∨ c = 0x53 then 2
  else 1

/-- The number of characters of a format, without a percent sign at its end. -/
def timeLength (tm : Tm) : List UInt8 → ℕ
  | [] => 0
  | [c] => if c = percent then 0 else 1
  | c :: k :: s =>
    if c = percent then conversionLength tm k + timeLength tm s else 1 + timeLength tm (k :: s)

theorem timeLength_lit (tm : Tm) {c : UInt8} (hc : c ≠ percent) (s : List UInt8) :
    timeLength tm (c :: s) = 1 + timeLength tm s := by
  cases s with
  | nil => simp [timeLength, hc]
  | cons k s => simp [timeLength, hc]

theorem timeLength_conv (tm : Tm) (k : UInt8) (s : List UInt8) :
    timeLength tm (percent :: k :: s) = conversionLength tm k + timeLength tm s := by
  simp [timeLength]

variable {limit : ℕ} {st : TimeText}

theorem TimeText.pos_store (c : UInt8) (st : TimeText) : (st.store c).pos = st.pos + 1 := rfl

theorem TimeText.pos_storeText (s : List UInt8) (hst : st.pos ≤ limit) :
    (st.storeText limit s).pos = min (st.pos + s.length) limit := by
  induction s generalizing st with
  | nil => exact (Nat.min_eq_left hst).symm
  | cons c s ih =>
    rw [storeText]
    split_ifs with hlt
    · rw [ih ((pos_store c st).trans_le hlt), pos_store, List.length_cons]
      omega
    · rw [List.length_cons]
      omega

theorem TimeText.pos_storeTwo (n : BitVec 32) (hst : st.pos < limit) :
    (st.storeTwo limit n).pos = min (st.pos + 2) limit := by
  rw [storeTwo]
  by_cases hlt : (st.store (fractionChar (n.sdiv 10))).pos < limit
  · rw [if_pos hlt]
    simp only [pos_store] at hlt ⊢
    omega
  · rw [if_neg hlt]
    simp only [pos_store] at hlt ⊢
    omega

/-- A string of `snprintf` without a zero byte is cut off at the size. -/
theorem snprintfString_eq {size : ℕ} (hsize : 1 ≤ size) {ps : List Piece} {y : BitVec 32}
    (htext : 0 ∉ expand (fun _ => (⟨y, none, ()⟩ : VaArg Unit)) 0 ps) :
    snprintfString size ps y =
      (expand (fun _ => (⟨y, none, ()⟩ : VaArg Unit)) 0 ps).take (size - 1) := by
  obtain ⟨k, hk, hrun⟩ := vsnprintf_pieces noFloat (fun _ => ⟨y, none, ()⟩) ps (fun _ => 0) size
  rw [snprintfString, hrun]
  exact hk.stringIn hsize htext

theorem snprintfString_formatD (size : ℕ) (hsize : 1 ≤ size) (y : BitVec 32) :
    snprintfString size formatD y = (signedNumeral y.toInt).take (size - 1) := by
  have hexpand : expand (fun _ => (⟨y, none, ()⟩ : VaArg Unit)) 0 formatD =
      signedNumeral y.toInt := by
    simp [expand, formatD, Conv.text]
  rw [snprintfString_eq hsize, hexpand]
  rw [hexpand]
  exact zero_notMem_signedNumeral _

theorem snprintfString_formatZero : snprintfString 16 formatZero 0 = [0x30] := by
  rw [snprintfString_eq (by decide)]
  · rfl
  · decide

/-- A conversion that is reached stores as many of its characters as there is room for. -/
theorem pos_timeConversion (tm : Tm) (c : UInt8) (hst : st.pos < limit) :
    (timeConversion limit tm c st).pos = min (st.pos + conversionLength tm c) limit := by
  rw [timeConversion, conversionLength]
  by_cases hY : c = 0x59
  · rw [if_pos hY, if_pos hY, TimeText.pos_storeText _ hst.le, snprintfString_formatD 8 (by decide),
      List.length_take, Nat.min_comm (8 - 1)]
  rw [if_neg hY, if_neg hY]
  by_cases htwo : c = 0x6D ∨ c = 0x64 ∨ c = 0x48 ∨ c = 0x4D ∨ c = 0x53
  · rw [if_pos htwo]
    obtain rfl | rfl | rfl | rfl | rfl := htwo <;> exact TimeText.pos_storeTwo _ hst
  · rw [if_neg htwo]
    simp only [not_or] at htwo
    obtain ⟨hm, hd, hH, hM, hS⟩ := htwo
    rw [if_neg hm, if_neg hd, if_neg hH, if_neg hM, if_neg hS]
    split_ifs
    · rw [TimeText.pos_storeText _ hst.le, snprintfString_formatZero]
      rfl
    · rw [TimeText.pos_store]
      omega

/-- The loop of `strftime` stops if the format is complete, or if the buffer is full before
    the percent sign at its end. -/
theorem timeLoop_isSome_iff (tm : Tm) (s : List UInt8) (st : TimeText) (hst : st.pos ≤ limit) :
    (formatLoop timeDirective (TimeText.hasRoom limit) TimeText.store
        (fun _ => timeConversion limit tm) s st).isSome ↔
      Complete timeDirective s ∨ limit ≤ st.pos + timeLength tm s := by
  induction hn : s.length using Nat.strong_induction_on generalizing s st with
  | _ n ih =>
    subst hn
    by_cases hfull : limit ≤ st.pos
    · have hstop : st.hasRoom limit = false := decide_eq_false (not_lt.mpr hfull)
      rw [formatLoop_stop hstop]
      exact iff_of_true rfl (.inr (hfull.trans (Nat.le_add_right _ _)))
    have hlt := not_le.mp hfull
    have hgo : st.hasRoom limit = true := decide_eq_true hlt
    rcases s with _ | ⟨c, s⟩
    · exact iff_of_true (by simp) (.inl .nil)
    by_cases hc : c = percent
    · subst hc
      rcases s with _ | ⟨k, rest⟩
      · rw [formatLoop_cut hgo rfl, complete_percent_iff]
        refine iff_of_false (by simp) ?_
        rintro (⟨k, rest, h, -⟩ | h)
        · cases h
        · simp only [timeLength, if_true] at h
          omega
      · have hpos := pos_timeConversion tm k hlt
        have hlen : rest.length < (percent :: k :: rest).length := by simp
        have hrest := ih _ hlen rest (timeConversion limit tm k st)
          (hpos.trans_le (Nat.min_le_right _ _)) rfl
        rw [formatLoop_conv (t := ()) hgo rfl, hrest, complete_percent_iff, timeLength_conv, hpos]
        constructor
        · rintro (h | h)
          · exact .inl ⟨k, rest, rfl, h⟩
          · right
            omega
        · rintro (⟨k', rest', heq, h⟩ | h)
          · cases heq
            exact .inl h
          · right
            omega
    · have hrest := ih _ (Nat.lt_succ_self _) s (st.store c) hlt rfl
      rw [formatLoop_lit hgo hc, hrest, complete_cons_iff hc, timeLength_lit tm hc,
        ← Nat.add_assoc]
      rfl

/-! ## All four -/

/-- **Where the formatters stop.** For every format and all arguments, each of the four
    returns, without a read behind the terminator of the format, if and only if the format
    does not end inside a directive; for `strftime`, or if the part of the format before a
    percent sign at its end fills the buffer. -/
theorem format_parsers_stop_iff {R F : Type} (ops : FloatOps R) (floatOps : FloatOps F)
    (narrow : R → F) (format : CString) (args : ℕ → VaArg R) :
    (∀ null buf size, (vsnprintf ops null buf size format args).isSome ↔
      Complete printfDirective format.bytes) ∧
    (∀ buf, (vfprintf ops buf format args).isSome ↔ Complete printfDirective format.bytes) ∧
    (∀ buf max tm, (strftime buf max format tm).isSome ↔
      Complete timeDirective format.bytes ∨ timeLimit max ≤ timeLength tm format.bytes) ∧
    ((Serial.serialPrintf floatOps narrow format args).isSome ↔
      Complete Serial.serialDirective format.bytes) := by
  refine ⟨fun null buf size => ?_, fun buf => ?_, fun buf max tm => ?_, ?_⟩
  · rw [vsnprintf, Option.isSome_map]
    exact formatLoop_isSome_iff (fun _ => rfl) _ _
  · rw [vfprintf, Option.isSome_map]
    exact formatLoop_isSome_iff (fun _ => rfl) _ _
  · rw [strftime, Option.isSome_map, timeLoop_isSome_iff tm _ _ (Nat.zero_le _), Nat.zero_add]
  · rw [Serial.serialPrintf, Option.isSome_map]
    exact formatLoop_isSome_iff (fun _ => rfl) _ _

/-- The format `"%"` takes all four behind its terminator. -/
theorem format_parsers_overrun :
    vsnprintf noFloat false (fun _ => 0) 16 ⟨[percent], by decide⟩ (fun _ => ⟨0, none, ()⟩) = none ∧
    vfprintf noFloat (fun _ => 0) ⟨[percent], by decide⟩ (fun _ => ⟨0, none, ()⟩) = none ∧
    strftime (fun _ => 0) 16 ⟨[percent], by decide⟩ ⟨0, 0, 0, 1, 0, 70⟩ = none ∧
    Serial.serialPrintf noFloat id ⟨[percent], by decide⟩ (fun _ => ⟨0, none, ()⟩) = none := by
  refine ⟨?_, ?_, ?_, ?_⟩
  · rw [vsnprintf, formatLoop_cut rfl rfl]
    rfl
  · rw [vfprintf, formatLoop_cut rfl rfl]
    rfl
  · rw [strftime, formatLoop_cut rfl rfl]
    rfl
  · rw [Serial.serialPrintf, formatLoop_cut rfl rfl]
    rfl

end Mboot.Libc
