import Mboot.Tty.Display

/-!
# A scrolling terminal is a window on an endless sheet

`Paper` is a terminal with the wrap, tab, carriage-return, newline and
backspace rules of `tty_write` and endlessly many rows, so it never scrolls.

* `scrollCells_eq`: the row copies of `tty_scroll` shift the screen up by one
  row.
* `Window k t p`: the screen of `t` shows the rows of `p` from `k` on.
* `scrolling_terminal_refines_paper`: after any ASCII bytes except form feed
  the terminal shows a window on the sheet, with the same cursor.
-/

namespace Mboot.Tty

open Common

/-! ## The endless sheet -/

/-- Rows and columns of cells, and a cursor. -/
structure Paper where
  cell : ℤ × ℤ → UInt16
  row : ℤ
  col : ℤ

namespace Paper

/-- Nothing written yet. -/
def blankSheet : Paper := ⟨fun _ => blank, 0, 0⟩

/-- White text on black for a 7-bit character. -/
def ascii (c : UInt8) : UInt16 := c.toUInt16 ||| vgaWhiteOnBlack

/-- What a byte does to the sheet, up to the wrap. -/
def control (p : Paper) (c : UInt8) : Paper :=
  if c = 0x0A then { p with col := 0, row := p.row + 1 }
  else if c = 0x0D then { p with col := 0 }
  else if c = 0x08 then
    if p.col > 0 then
      { p with cell := Function.update p.cell (p.row, p.col - 1) blank, col := p.col - 1 }
    else p
  else if c = 0x09 then { p with col := tabStop p.col }
  else { p with cell := Function.update p.cell (p.row, p.col) (ascii c), col := p.col + 1 }

/-- The wrap at the right edge. -/
def wrap (p : Paper) : Paper :=
  if p.col ≥ vgaWidth then { p with col := 0, row := p.row + 1 } else p

/-- Write one byte. -/
def write (p : Paper) (c : UInt8) : Paper := (p.control c).wrap

end Paper

/-! ## The scroll -/

/-- The first `n` rounds of the loop in `tty_scroll`. -/
theorem foldl_copyRowUp (cells : ℤ → UInt16) (n : ℕ) (i : ℤ) :
    (List.range n).foldl copyRowUp cells i =
      if 0 ≤ i ∧ i < n * vgaWidth then cells (i + vgaWidth) else cells i := by
  induction n generalizing i with
  | zero =>
    rw [if_neg (by simp only [Nat.cast_zero, zero_mul]; omega)]
    rfl
  | succ n ih =>
    -- row `n` takes the row below it, which no earlier round has touched
    rw [List.range_succ, List.foldl_append, List.foldl_cons, List.foldl_nil, copyRowUp, ih, ih]
    simp only [vgaWidth, Nat.cast_add, Nat.cast_one]
    split_ifs <;> first | rfl | omega

theorem scrollCells_eq (cells : ℤ → UInt16) {i : ℤ} (h0 : 0 ≤ i) (h1 : i < ttyCellCount) :
    scrollCells cells i =
      if i < (vgaHeight - 1) * vgaWidth then cells (i + vgaWidth) else blank := by
  unfold scrollCells
  rw [foldl_copyRowUp]
  simp only [vgaWidth, vgaHeight, ttyCellCount] at *
  split_ifs <;> first | rfl | omega

/-- The rows `tty_write` scrolls the terminal by for the byte `c`. -/
def Terminal.scrolledBy (t : Terminal) (c : UInt8) : ℤ :=
  match t.control c with
  | some t => if t.wrap.curY ≥ vgaHeight then 1 else 0
  | none => 0

/-! ## The window -/

/-- The screen of `t` shows the rows of `p` from `k` on; below the window the
    sheet is blank. -/
structure Window (k : ℤ) (t : Terminal) (p : Paper) : Prop where
  offset : 0 ≤ k
  cells : ∀ r c, 0 ≤ r → r < vgaHeight → 0 ≤ c → c < vgaWidth →
    t.cells (r * vgaWidth + c) = p.cell (k + r, c)
  row : p.row = k + t.curY
  col : p.col = t.curX
  below : ∀ r c, k + vgaHeight ≤ r → p.cell (r, c) = blank

theorem charCell_ascii {c : UInt8} (h : c < 0x80) : charCell c = Paper.ascii c := by
  rw [charCell, if_pos h, Paper.ascii]

variable {k : ℤ} {t : Terminal} {p : Paper}

/-- A cell written at a position on the screen is written at that row of the
    sheet. -/
theorem Window.put (h : Window k t p) {x y : ℤ} (hx0 : 0 ≤ x) (hx1 : x < vgaWidth)
    (hy1 : y < vgaHeight) (v : UInt16) :
    (∀ r c, 0 ≤ r → r < vgaHeight → 0 ≤ c → c < vgaWidth →
      Function.update t.cells (y * vgaWidth + x) v (r * vgaWidth + c) =
        Function.update p.cell (k + y, x) v (k + r, c)) ∧
    ∀ r c, k + vgaHeight ≤ r → Function.update p.cell (k + y, x) v (r, c) = blank := by
  refine ⟨fun r c hr0 hr1 hc0 hc1 => ?_, fun r c hr => ?_⟩
  · by_cases hsame : r = y ∧ c = x
    · rw [hsame.1, hsame.2, Function.update_self, Function.update_self]
    · have hindex : r * vgaWidth + c ≠ y * vgaWidth + x := by
        simp only [vgaWidth] at *
        omega
      have hpos : (k + r, c) ≠ (k + y, x) := by
        rw [ne_eq, Prod.mk.injEq]
        omega
      rw [Function.update_of_ne hindex, Function.update_of_ne hpos]
      exact h.cells r c hr0 hr1 hc0 hc1
  · have hpos : (r, c) ≠ (k + y, x) := by
      rw [ne_eq, Prod.mk.injEq]
      omega
    rw [Function.update_of_ne hpos]
    exact h.below r c hr

theorem Window.control (h : Window k t p) (hin : t.InRange) {c : UInt8} (hc : c < 0x80)
    (hff : c ≠ 0x0C) {t' : Terminal} (ht' : t.control c = some t') : Window k t' (p.control c) := by
  obtain ⟨h0, h1, h2, h3⟩ := hin
  unfold Terminal.control at ht'
  unfold Paper.control
  rw [h.col]
  split_ifs at ht' ⊢ with hn hr hb hx ht
  · cases ht'
    exact ⟨h.offset, h.cells, by show p.row + 1 = k + (t.curY + 1); rw [h.row]; omega, rfl, h.below⟩
  · cases ht'
    exact ⟨h.offset, h.cells, h.row, rfl, h.below⟩
  · rw [Terminal.put_eq (t := { t with curX := t.curX - 1 }) (show 0 ≤ t.curX - 1 by omega)
      (show t.curX - 1 < vgaWidth by omega) h2 h3] at ht'
    cases ht'
    obtain ⟨hcells, hbelow⟩ := h.put (show 0 ≤ t.curX - 1 by omega)
      (show t.curX - 1 < vgaWidth by omega) h3 blank
    rw [← h.row] at hcells hbelow
    exact ⟨h.offset, hcells, h.row, rfl, hbelow⟩
  · cases ht'
    exact h
  · cases ht'
    exact ⟨h.offset, h.cells, h.row, rfl, h.below⟩
  · rw [Terminal.put_eq h0 h1 h2 h3, Option.map_some, charCell_ascii hc] at ht'
    cases ht'
    obtain ⟨hcells, hbelow⟩ := h.put h0 h1 h3 (Paper.ascii c)
    rw [← h.row] at hcells hbelow
    exact ⟨h.offset, hcells, h.row, rfl, hbelow⟩

theorem Window.wrap (h : Window k t p) : Window k t.wrap p.wrap := by
  unfold Terminal.wrap Paper.wrap
  rw [h.col]
  split_ifs with hedge
  · exact ⟨h.offset, h.cells, by show p.row + 1 = k + (t.curY + 1); rw [h.row]; omega, rfl, h.below⟩
  · exact h

/-- A scroll moves the window down by one row. -/
theorem Window.scroll (h : Window k t p) (hbottom : t.curY ≤ vgaHeight) :
    Window (k + if t.curY ≥ vgaHeight then 1 else 0) t.scroll p := by
  unfold Terminal.scroll
  split_ifs with hdown
  · have hy : t.curY = vgaHeight := le_antisymm hbottom hdown
    refine ⟨by have := h.offset; omega, fun r c hr0 hr1 hc0 hc1 => ?_, ?_, h.col, ?_⟩
    · show scrollCells t.cells (r * vgaWidth + c) = p.cell (k + 1 + r, c)
      have hcell0 : 0 ≤ r * vgaWidth + c := by simp only [vgaWidth]; omega
      have hcell1 : r * vgaWidth + c < ttyCellCount := by
        simp only [vgaWidth, vgaHeight, ttyCellCount] at *
        omega
      rw [scrollCells_eq t.cells hcell0 hcell1]
      split_ifs with hlast
      · have hnext := h.cells (r + 1) c (by omega)
          (by simp only [vgaWidth, vgaHeight] at *; omega) hc0 hc1
        rw [show r * vgaWidth + c + vgaWidth = (r + 1) * vgaWidth + c by ring, hnext,
          show k + (r + 1) = k + 1 + r by ring]
      · exact (h.below _ c (by simp only [vgaWidth, vgaHeight] at *; omega)).symm
    · show p.row = k + 1 + (vgaHeight - 1)
      rw [h.row, hy]
      omega
    · exact fun r c hr => h.below r c (by omega)
  · rw [add_zero]
    exact h

/-- One byte: the terminal scrolls where the sheet goes on. -/
theorem Window.write (h : Window k t p) (hin : t.InRange) {c : UInt8} (hc : c < 0x80)
    (hff : c ≠ 0x0C) :
    ∃ t', t.write c = some t' ∧ t'.InRange ∧ Window (k + t.scrolledBy c) t' (p.write c) := by
  obtain ⟨t1, ht1, hnear⟩ := hin.control c
  have h1 := (h.control hin hc hff ht1).wrap
  have hbottom : t1.wrap.curY ≤ vgaHeight := by
    obtain ⟨-, -, -, hy⟩ := hnear
    unfold Terminal.wrap
    split_ifs with hedge
    · show t1.curY + 1 ≤ vgaHeight
      simp only [vgaWidth, vgaHeight] at *
      omega
    · simp only [vgaHeight] at *
      omega
  refine ⟨t1.wrap.scroll, by rw [Terminal.write, ht1, Option.map_some], hnear.wrap_scroll, ?_⟩
  rw [Terminal.scrolledBy, ht1]
  exact h1.scroll hbottom

/-- A sequence of bytes, with a terminal of the console. -/
theorem Window.writeAll {s : Console} {id : ℤ} {bytes : List UInt8}
    (h : Window k (s.ttys id) p) (hready : s.ttyReady = true) (hid : ttyValid id)
    (hin : (s.ttys id).InRange) (hascii : ∀ c ∈ bytes, c < 0x80 ∧ c ≠ 0x0C) :
    ∃ s' k', bytes.foldlM (fun s c => ttyWrite s id c) s = some s' ∧ (s'.ttys id).InRange ∧
      Window k' (s'.ttys id) (bytes.foldl Paper.write p) := by
  let R (s : Console) (p : Paper) : Prop :=
    s.ttyReady = true ∧ (s.ttys id).InRange ∧ ∃ k, Window k (s.ttys id) p
  have hstep : ∀ c ∈ bytes, ∀ s p, R s p → ∃ s', ttyWrite s id c = some s' ∧ R s' (p.write c) := by
    rintro c hc s p ⟨hready, hin, k, h⟩
    obtain ⟨hlow, hff⟩ := hascii c hc
    obtain ⟨t1, ht1, hin1, h1⟩ := h.write hin hlow hff
    obtain ⟨s1, hs1, hup, -⟩ := ttyWrite_spec hready hid ht1
    rw [← hup.get] at hin1 h1
    exact ⟨s1, hs1, hup.ready.trans hready, hin1, _, h1⟩
  obtain ⟨s', hs', -, hin', k', h'⟩ := simulates_foldlM hstep ⟨hready, hin, k, h⟩
  exact ⟨s', k', hs', hin', h'⟩

/-! ## Main theorem -/

/-- The screen of a terminal after `tty_clear`. -/
structure Cleared (t : Terminal) : Prop where
  cells : ∀ i, 0 ≤ i → i < ttyCellCount → t.cells i = blank
  curX : t.curX = 0
  curY : t.curY = 0

theorem cleared_ttyClear (t : Terminal) : Cleared (ttyClear t) :=
  ⟨fun _ h0 h1 => if_pos ⟨h0, h1⟩, rfl, rfl⟩

theorem Cleared.window (h : Cleared t) : t.InRange ∧ Window 0 t Paper.blankSheet := by
  refine ⟨⟨h.curX.ge, ?_, h.curY.ge, ?_⟩, ⟨le_rfl, fun r c hr0 hr1 hc0 hc1 => ?_, ?_, ?_, ?_⟩⟩
  · rw [h.curX]
    decide
  · rw [h.curY]
    decide
  · apply h.cells
    · simp only [vgaWidth]
      omega
    · simp only [vgaWidth, vgaHeight, ttyCellCount] at *
      omega
  · show (0 : ℤ) = 0 + t.curY
    rw [h.curY]
    rfl
  · exact h.curX.symm
  · exact fun _ _ _ => rfl

/-- **A scrolling terminal refines an endless one.** Writing any ASCII bytes
    except form feed to a cleared terminal runs through: every store is inside
    `cells`. Afterwards the cursor is on the screen, and the screen shows the
    rows from some `k` on of the endless sheet after the same bytes, with the
    sheet's cursor. -/
theorem scrolling_terminal_refines_paper {s : Console} (hready : s.ttyReady = true) {id : ℤ}
    (hid : ttyValid id) (hclear : Cleared (s.ttys id)) (bytes : List UInt8)
    (hascii : ∀ c ∈ bytes, c < 0x80 ∧ c ≠ 0x0C) :
    ∃ s', bytes.foldlM (fun s c => ttyWrite s id c) s = some s' ∧
      let t := s'.ttys id
      let sheet := bytes.foldl Paper.write Paper.blankSheet
      (0 ≤ t.curX ∧ t.curX < vgaWidth) ∧ (0 ≤ t.curY ∧ t.curY < vgaHeight) ∧
      ∃ k, 0 ≤ k ∧
        (∀ r c, 0 ≤ r → r < vgaHeight → 0 ≤ c → c < vgaWidth →
          t.cells (r * vgaWidth + c) = sheet.cell (k + r, c)) ∧
        sheet.row = k + t.curY ∧ sheet.col = t.curX := by
  obtain ⟨hin, hwin⟩ := hclear.window
  obtain ⟨s', k, hs', hin', hwin'⟩ := hwin.writeAll hready hid hin hascii
  exact ⟨s', hs', ⟨hin'.left, hin'.right⟩, ⟨hin'.top, hin'.bottom⟩, k, hwin'.offset, hwin'.cells,
    hwin'.row, hwin'.col⟩

/-- A console as `tty_init` leaves it. -/
def bootConsole : Console :=
  let t : Terminal := ⟨fun _ => 0, 0, 0, fun _ => 0, 0, 0, fun _ => 0, 0, 0⟩
  ttyInit ⟨fun _ => t, 0, false, 0, 0, fun _ => 0, 0⟩ fun _ => t

/-- Twenty-five newlines scroll the screen by one row. -/
theorem scrolling_terminal_refines_paper_newlines :
    ∃ s', (List.replicate 25 0x0A).foldlM (fun s c => ttyWrite s 1 c) bootConsole = some s' ∧
      (s'.ttys 1).curY < vgaHeight ∧ ∃ k, 25 = k + (s'.ttys 1).curY := by
  have hclear : Cleared (bootConsole.ttys 1) := cleared_ttyClear _
  have hascii : ∀ c ∈ List.replicate 25 (0x0A : UInt8), c < 0x80 ∧ c ≠ 0x0C := by
    intro c hc
    rw [List.eq_of_mem_replicate hc]
    decide
  obtain ⟨s', hs', -, hy, k, -, -, hrow, -⟩ :=
    scrolling_terminal_refines_paper (s := bootConsole) rfl (by decide) hclear _ hascii
  have hsheet : ((List.replicate 25 (0x0A : UInt8)).foldl Paper.write Paper.blankSheet).row = 25 := by
    decide +kernel
  exact ⟨s', hs', hy.2, k, hsheet.symm.trans hrow⟩

end Mboot.Tty
