import Mathlib

/-!
# Virtual terminals and the text display

Model of the screen side of `stage2/dev/tty.c` and of `stage2/dev/vga.c`.

* C `int`s are integers and arrays are functions of the C index, so that an
  index out of range can be written down; `ttyPutCell` returns `none` where the
  source would store outside `cells`.
* `ttys[i]` is the terminal with number `i`. The objects come from different
  `kmalloc` calls, so the pointer test `tty == ttys[active_tty]` compares the
  numbers; the pointers are null exactly as long as `tty_ready` is 0.
* The display is the text buffer at `VGA_BUF` and the cursor index in the CRT
  registers.
* `char` is signed: a byte from `0x80` on is sign-extended by `(uint16_t)c`.
-/

namespace Mboot.Tty

/-- `VGA_WIDTH` (inc/dev/vga.h). -/
abbrev vgaWidth : ℤ := 80

/-- `VGA_HEIGHT` (inc/dev/vga.h). -/
abbrev vgaHeight : ℤ := 25

/-- `TTY_CELL_COUNT` (tty.c line 11). -/
abbrev ttyCellCount : ℤ := vgaWidth * vgaHeight

/-- `TTY_COUNT` (inc/dev/tty.h). -/
abbrev ttyCount : ℤ := 4

/-- `VGA_WHITE_ON_BLACK` (inc/dev/vga.h). -/
abbrev vgaWhiteOnBlack : UInt16 := 0x0F00

/-- `(uint16_t)c | VGA_WHITE_ON_BLACK` for a `char c`. -/
def charCell (c : UInt8) : UInt16 :=
  (if c < 0x80 then c.toUInt16 else c.toUInt16 ||| 0xFF00) ||| vgaWhiteOnBlack

/-- `(uint16_t)' ' | VGA_WHITE_ON_BLACK`. -/
abbrev blank : UInt16 := 0x20 ||| vgaWhiteOnBlack

/-- `tty_t` (tty.c lines 13–23). -/
structure Terminal where
  cells : ℤ → UInt16
  curX : ℤ
  curY : ℤ
  input : ℤ → UInt8
  inputHead : ℕ
  inputTail : ℕ
  line : ℤ → UInt8
  lineFill : ℤ
  linePos : ℤ

/-- The globals of `tty.c` (lines 25–30) and the display. -/
structure Console where
  ttys : ℤ → Terminal
  activeTty : ℤ
  ttyReady : Bool
  earlyX : ℤ
  earlyY : ℤ
  /-- the text buffer, one entry per cell -/
  vga : ℤ → UInt16
  /-- the cursor index in the CRT registers -/
  cursor : ℤ

/-- Replace terminal `id`. -/
def Console.setTty (s : Console) (id : ℤ) (t : Terminal) : Console :=
  { s with ttys := Function.update s.ttys id t }

/-! ## The display -/

/-- `vga_move_cursor` (vga.c lines 10–17); the index is a `uint16_t`. -/
def vgaMoveCursor (s : Console) (x y : ℤ) : Console :=
  { s with cursor := (y * vgaWidth + x) % 2 ^ 16 }

/-- `vga_put_char` (vga.c lines 19–23). -/
def vgaPutChar (s : Console) (x y : ℤ) (c : UInt8) : Console :=
  { s with vga := Function.update s.vga (y * vgaWidth + x) (charCell c) }

/-- `vga_clear_char` (vga.c lines 25–27). -/
def vgaClearChar (s : Console) (x y : ℤ) : Console :=
  { s with vga := Function.update s.vga (y * vgaWidth + x) blank }

/-- `vga_draw_buffer` (vga.c lines 44–46). -/
def vgaDrawBuffer (s : Console) (cells : ℤ → UInt16) : Console :=
  { s with vga := fun i => if 0 ≤ i ∧ i < ttyCellCount then cells i else s.vga i }

/-- `vga_get_char` (vga.c lines 48–50): the low byte of the cell. -/
def vgaGetChar (s : Console) (x y : ℤ) : UInt8 := (s.vga (y * vgaWidth + x)).toUInt8

/-! ## Terminals -/

/-- `tty_clear` (tty.c lines 32–42). -/
def ttyClear (t : Terminal) : Terminal :=
  { t with
    cells := fun i => if 0 ≤ i ∧ i < ttyCellCount then blank else t.cells i
    curX := 0, curY := 0, inputHead := 0, inputTail := 0, lineFill := 0, linePos := 0 }

/-- `tty_valid` (line 157). -/
def ttyValid (id : ℤ) : Prop := 0 ≤ id ∧ id < ttyCount

instance (id : ℤ) : Decidable (ttyValid id) := inferInstanceAs (Decidable (_ ∧ _))

/-- `tty_render` (lines 44–50). -/
def ttyRender (s : Console) (id : ℤ) : Console :=
  vgaMoveCursor (vgaDrawBuffer s (s.ttys id).cells) (s.ttys id).curX (s.ttys id).curY

/-- `tty_put_cell` (lines 52–58) on terminal `id`. -/
def ttyPutCell (s : Console) (id x y : ℤ) (c : UInt8) : Option Console :=
  let i := y * vgaWidth + x
  if 0 ≤ i ∧ i < ttyCellCount then
    let t := s.ttys id
    let s := s.setTty id { t with cells := Function.update t.cells i (charCell c) }
    some (if id = s.activeTty then vgaPutChar s x y c else s)
  else none

/-- The `memcpy` of one round of the loop in `tty_scroll`: row `y + 1` is copied
    over row `y`. -/
def copyRowUp (cells : ℤ → UInt16) (y : ℕ) : ℤ → UInt16 := fun i =>
  if (y : ℤ) * vgaWidth ≤ i ∧ i < (y + 1) * vgaWidth then cells (i + vgaWidth) else cells i

/-- The cells after `tty_scroll` (lines 63–70): the rows are moved up one by
    one and the last row is blanked. -/
def scrollCells (cells : ℤ → UInt16) : ℤ → UInt16 :=
  let cells := (List.range 24).foldl copyRowUp cells
  fun i => if (vgaHeight - 1) * vgaWidth ≤ i ∧ i < ttyCellCount then blank else cells i

/-- `tty_scroll` (lines 60–75) on terminal `id`. -/
def ttyScroll (s : Console) (id : ℤ) : Console :=
  let t := s.ttys id
  let s := s.setTty id { t with cells := scrollCells t.cells, curY := vgaHeight - 1 }
  if id = s.activeTty then ttyRender s s.activeTty else s

/-- `early_scroll` (lines 77–87). -/
def earlyScroll (s : Console) : Console :=
  let s := (List.range 24).foldl (fun s (y : ℕ) =>
    (List.range 80).foldl (fun s (x : ℕ) => vgaPutChar s x y (vgaGetChar s x (y + 1))) s) s
  let s := (List.range 80).foldl (fun s (x : ℕ) => vgaClearChar s x (vgaHeight - 1)) s
  { s with earlyY := vgaHeight - 1 }

/-- The next tab stop: `(x + 8) & ~(8 - 1)`. -/
def tabStop (x : ℤ) : ℤ := Int.land (x + 8) (-8)

/-- `tty_early_write` (lines 89–124). -/
def ttyEarlyWrite (s : Console) (c : UInt8) : Console :=
  let s :=
    if c = 0x0A then { s with earlyX := 0, earlyY := s.earlyY + 1 }
    else if c = 0x0D then { s with earlyX := 0 }
    else if c = 0x08 then
      if s.earlyX > 0 then vgaClearChar { s with earlyX := s.earlyX - 1 } (s.earlyX - 1) s.earlyY
      else s
    else if c = 0x09 then { s with earlyX := tabStop s.earlyX }
    else { vgaPutChar s s.earlyX s.earlyY c with earlyX := s.earlyX + 1 }
  let s := if s.earlyX ≥ vgaWidth then { s with earlyX := 0, earlyY := s.earlyY + 1 } else s
  let s := if s.earlyY ≥ vgaHeight then earlyScroll s else s
  vgaMoveCursor s s.earlyX s.earlyY

/-- `tty_init` (lines 161–173). `fresh i` is the memory `kmalloc` returned for
    terminal `i`; `kmalloc` does not return null. -/
def ttyInit (s : Console) (fresh : ℤ → Terminal) : Console :=
  ttyRender
    { s with
      ttys := fun i => if ttyValid i then ttyClear (fresh i) else s.ttys i
      activeTty := 0, ttyReady := true, earlyX := 0, earlyY := 0 } 0

/-- `tty_switch` (lines 177–182). -/
def ttySwitch (s : Console) (id : ℤ) : Console :=
  if ¬ ttyValid id ∨ id = s.activeTty then s else ttyRender { s with activeTty := id } id

/-- The `switch` of `tty_write` (lines 192–218). -/
def ttyControl (s : Console) (id : ℤ) (c : UInt8) : Option Console :=
  let t := s.ttys id
  if c = 0x0A then some (s.setTty id { t with curX := 0, curY := t.curY + 1 })
  else if c = 0x0D then some (s.setTty id { t with curX := 0 })
  else if c = 0x08 then
    if t.curX > 0 then ttyPutCell (s.setTty id { t with curX := t.curX - 1 }) id (t.curX - 1) t.curY 0x20
    else some s
  else if c = 0x09 then some (s.setTty id { t with curX := tabStop t.curX })
  else if c = 0x0C then
    let s := s.setTty id (ttyClear t)
    some (if id = s.activeTty then ttyRender s s.activeTty else s)
  else do
    let s ← ttyPutCell s id t.curX t.curY c
    let t := s.ttys id
    return s.setTty id { t with curX := t.curX + 1 }

/-- The wrap at the right edge (lines 220–223). -/
def ttyWrap (s : Console) (id : ℤ) : Console :=
  let t := s.ttys id
  if t.curX ≥ vgaWidth then s.setTty id { t with curX := 0, curY := t.curY + 1 } else s

/-- The end of `tty_write` (lines 225–229). -/
def ttyFinish (s : Console) (id : ℤ) : Console :=
  let s := if (s.ttys id).curY ≥ vgaHeight then ttyScroll s id else s
  if id = s.activeTty then vgaMoveCursor s (s.ttys id).curX (s.ttys id).curY else s

/-- `tty_write` (lines 184–230). -/
def ttyWrite (s : Console) (id : ℤ) (c : UInt8) : Option Console :=
  if s.ttyReady = false ∨ ¬ ttyValid id then some (ttyEarlyWrite s c)
  else (ttyControl s id c).map fun s => ttyFinish (ttyWrap s id) id

/-- `tty_write_buf` (lines 232–240) on a buffer that is not null: the result and
    the console. -/
def ttyWriteBuf (s : Console) (id : ℤ) (buf : List UInt8) : Option (ℤ × Console) :=
  if ¬ ttyValid id then some (-1, s)
  else (buf.foldlM (fun s c => ttyWrite s id c) s).map fun s => (Int.bmod buf.length (2 ^ 32), s)

end Mboot.Tty
