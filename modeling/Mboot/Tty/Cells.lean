import Mboot.Tty.Scroll

/-!
# How cells are encoded

A cell of a terminal and of the text buffer is built from a `char`, which is signed, in
`tty_put_cell` and `vga_put_char` (tty.c line 55, vga.c line 22): `(uint16_t)c` is
sign-extended before the attribute is added.

`TextScreen` is what a screen is for: the byte that stands in each cell, a space if there
is none, moved by the cursor, wrap, clear and scroll rules of `tty_write`.

* `ShowsText`: the cells of a terminal are those of the bytes of a text screen; every byte
  written keeps this (`ShowsText.write`).
* `Depicts`: the same for all terminals, with the display showing the active one.
* `cells_encoded_iff`: after any sequence of writes and switches, every cell has the low
  byte it should have, and all have the white-on-black attribute if and only if no byte
  from `0x80` on stands on a screen.
* `cells_encoded_of_ascii`: so they have when all bytes written are below `0x80`.
-/

namespace Mboot.Tty

open Common

/-! ## Bytes on a screen -/

/-- The bytes on a screen, and the cursor. -/
structure TextScreen where
  glyph : ℤ → UInt8
  x : ℤ
  y : ℤ

namespace TextScreen

/-- Nothing written. -/
def empty : TextScreen := ⟨fun _ => 0x20, 0, 0⟩

/-- A byte at a position. -/
def put (p : TextScreen) (x y : ℤ) (c : UInt8) : TextScreen :=
  { p with glyph := Function.update p.glyph (y * vgaWidth + x) c }

/-- What a byte does, up to the wrap. -/
def control (p : TextScreen) (c : UInt8) : TextScreen :=
  if c = 0x0A then { p with x := 0, y := p.y + 1 }
  else if c = 0x0D then { p with x := 0 }
  else if c = 0x08 then
    if p.x > 0 then { p.put (p.x - 1) p.y 0x20 with x := p.x - 1 } else p
  else if c = 0x09 then { p with x := tabStop p.x }
  else if c = 0x0C then empty
  else { p.put p.x p.y c with x := p.x + 1 }

/-- The wrap at the right edge. -/
def wrap (p : TextScreen) : TextScreen :=
  if p.x ≥ vgaWidth then { p with x := 0, y := p.y + 1 } else p

/-- The rows move up, and the last one is left empty. -/
def scroll (p : TextScreen) : TextScreen :=
  if p.y ≥ vgaHeight then
    { p with
      glyph := fun i => if i < (vgaHeight - 1) * vgaWidth then p.glyph (i + vgaWidth) else 0x20
      y := vgaHeight - 1 }
  else p

/-- Write one byte. -/
def write (p : TextScreen) (c : UInt8) : TextScreen := (p.control c).wrap.scroll

/-- No byte on the screen is above `0x7F`. -/
def Ascii (p : TextScreen) : Prop := ∀ i, p.glyph i < 0x80

variable {p : TextScreen} {c : UInt8}

theorem glyph_put (p : TextScreen) (x y : ℤ) (c : UInt8) :
    (p.put x y c).glyph = Function.update p.glyph (y * vgaWidth + x) c := rfl

theorem empty_ascii : empty.Ascii := fun _ => (by decide : (0x20 : UInt8) < 0x80)

theorem Ascii.put (h : p.Ascii) (hc : c < 0x80) (x y : ℤ) : (p.put x y c).Ascii := by
  intro i
  rw [glyph_put, Function.update_apply]
  split_ifs
  · exact hc
  · exact h i

theorem Ascii.control (h : p.Ascii) (hc : c < 0x80) : (p.control c).Ascii := by
  unfold TextScreen.control
  split_ifs
  · exact h
  · exact h
  · exact h.put (by decide) _ _
  · exact h
  · exact h
  · exact empty_ascii
  · exact h.put hc _ _

theorem Ascii.write (h : p.Ascii) (hc : c < 0x80) : (p.write c).Ascii := by
  have hwrap : (p.control c).wrap.Ascii := by
    unfold TextScreen.wrap
    split_ifs <;> exact h.control hc
  unfold TextScreen.write TextScreen.scroll
  split_ifs
  · intro i
    dsimp only
    split_ifs
    · exact hwrap _
    · decide
  · exact hwrap

end TextScreen

/-! ## The cell of a byte -/

theorem forall_byte {P : UInt8 → Prop} (h : ∀ n < 256, P (UInt8.ofNat n)) (c : UInt8) : P c := by
  have hc := h c.toNat c.toNat_lt
  rwa [UInt8.ofNat_toNat] at hc

/-- The low byte of a cell is the character. -/
theorem charCell_low (c : UInt8) : (charCell c).toUInt8 = c :=
  forall_byte (P := fun c => (charCell c).toUInt8 = c) (by decide +kernel) c

/-- The high byte is the attribute exactly if the `char` is not negative. -/
theorem charCell_high_iff (c : UInt8) : charCell c >>> 8 = 0x0F ↔ c < 0x80 :=
  forall_byte (P := fun c => charCell c >>> 8 = 0x0F ↔ c < 0x80) (by decide +kernel) c

/-- White on black, and the byte `c` below it. -/
def WhiteOnBlack (cell : UInt16) (c : UInt8) : Prop := cell >>> 8 = 0x0F ∧ cell.toUInt8 = c

theorem whiteOnBlack_charCell (c : UInt8) : WhiteOnBlack (charCell c) c ↔ c < 0x80 := by
  rw [WhiteOnBlack, charCell_high_iff, charCell_low]
  exact and_iff_left rfl

/-! ## A terminal shows a text screen -/

/-- The terminal has the cells of the bytes, and the cursor. -/
structure ShowsText (t : Terminal) (p : TextScreen) : Prop where
  x : t.curX = p.x
  y : t.curY = p.y
  cells : ∀ i, 0 ≤ i → i < ttyCellCount → t.cells i = charCell (p.glyph i)

variable {t t' : Terminal} {p : TextScreen}

/-- A cell written in both. -/
theorem ShowsText.put (h : ShowsText t p) (x y : ℤ) (c : UInt8) : ∀ i, 0 ≤ i → i < ttyCellCount →
    Function.update t.cells (y * vgaWidth + x) (charCell c) i =
      charCell ((p.put x y c).glyph i) := by
  intro i h0 h1
  rw [TextScreen.glyph_put]
  by_cases hi : i = y * vgaWidth + x
  · rw [hi, Function.update_self, Function.update_self]
  · rw [Function.update_of_ne hi, Function.update_of_ne hi]
    exact h.cells i h0 h1

theorem showsText_ttyClear (t : Terminal) : ShowsText (ttyClear t) TextScreen.empty :=
  ⟨rfl, rfl, fun _ h0 h1 => if_pos ⟨h0, h1⟩⟩

theorem ShowsText.control (h : ShowsText t p) (hin : t.InRange) {c : UInt8}
    (ht : t.control c = some t') : ShowsText t' (p.control c) := by
  obtain ⟨h0, h1, h2, h3⟩ := hin
  unfold Terminal.control at ht
  unfold TextScreen.control
  rw [← h.x, ← h.y]
  split_ifs at ht ⊢ with hn hr hb hx htab hf
  · cases ht
    exact ⟨rfl, rfl, h.cells⟩
  · cases ht
    exact ⟨rfl, rfl, h.cells⟩
  · rw [Terminal.put_eq (t := { t with curX := t.curX - 1 }) (show 0 ≤ t.curX - 1 by omega)
      (show t.curX - 1 < vgaWidth by omega) h2 h3] at ht
    cases ht
    exact ⟨rfl, h.y, h.put (t.curX - 1) t.curY 0x20⟩
  · cases ht
    exact h
  · cases ht
    exact ⟨rfl, rfl, h.cells⟩
  · cases ht
    exact showsText_ttyClear t
  · rw [Terminal.put_eq h0 h1 h2 h3] at ht
    cases ht
    exact ⟨rfl, h.y, h.put t.curX t.curY c⟩

theorem ShowsText.wrap (h : ShowsText t p) : ShowsText t.wrap p.wrap := by
  unfold Terminal.wrap TextScreen.wrap
  rw [← h.x, ← h.y]
  split_ifs
  · exact ⟨rfl, rfl, h.cells⟩
  · exact h

theorem ShowsText.scroll (h : ShowsText t p) : ShowsText t.scroll p.scroll := by
  unfold Terminal.scroll TextScreen.scroll
  rw [← h.y]
  split_ifs
  · refine ⟨h.x, rfl, fun i h0 h1 => ?_⟩
    show scrollCells t.cells i =
      charCell (if i < (vgaHeight - 1) * vgaWidth then p.glyph (i + vgaWidth) else 0x20)
    rw [scrollCells_eq t.cells h0 h1]
    split_ifs with hrow
    · apply h.cells
      · simp only [vgaWidth]
        omega
      · simp only [vgaWidth, vgaHeight, ttyCellCount] at *
        omega
    · rfl
  · exact h

theorem ShowsText.write (h : ShowsText t p) (hin : t.InRange) {c : UInt8}
    (ht : t.write c = some t') : ShowsText t' (p.write c) := by
  obtain ⟨t1, ht1, rfl⟩ := Option.map_eq_some_iff.mp ht
  exact (h.control hin ht1).wrap.scroll

/-! ## All terminals and the display -/

/-- Each terminal shows its text screen, and the display shows the active terminal. -/
structure Depicts (s : Console) (text : ℤ → TextScreen) : Prop where
  mirrors : Mirrors s
  terminals : ∀ id, ttyValid id → ShowsText (s.ttys id) (text id)

variable {s : Console} {text : ℤ → TextScreen}

theorem Depicts.init (s : Console) (fresh : ℤ → Terminal) :
    Depicts (ttyInit s fresh) fun _ => TextScreen.empty := by
  refine ⟨Mirrors.init s fresh, fun id hid => ?_⟩
  have hclear : (ttyInit s fresh).ttys id = ttyClear (fresh id) := if_pos hid
  rw [hclear]
  exact showsText_ttyClear _

/-- One byte. -/
theorem Depicts.write (h : Depicts s text) {id : ℤ} (hid : ttyValid id) (c : UInt8) :
    ∃ s', ttyWrite s id c = some s' ∧
      Depicts s' (Function.update text id ((text id).write c)) := by
  have hin := h.mirrors.inRange id hid
  obtain ⟨t, ht, -⟩ := Terminal.write_inRange hin c
  obtain ⟨s', hs', hup, -⟩ := ttyWrite_spec h.mirrors.ready hid ht
  obtain ⟨s1, hs1, hm, hother⟩ := h.mirrors.write hid c
  obtain rfl : s' = s1 := Option.some.inj (hs'.symm.trans hs1)
  refine ⟨s', hs', hm, fun j hj => ?_⟩
  by_cases hji : j = id
  · rw [hji, hup.get, Function.update_self]
    exact (h.terminals id hid).write hin ht
  · rw [hother j hji, Function.update_of_ne hji]
    exact h.terminals j hj

/-- A buffer. -/
theorem Depicts.writeAll (h : Depicts s text) {id : ℤ} (hid : ttyValid id) (buf : List UInt8) :
    ∃ s', buf.foldlM (fun s c => ttyWrite s id c) s = some s' ∧
      Depicts s' (Function.update text id (buf.foldl TextScreen.write (text id))) := by
  refine simulates_foldlM (R := fun s p => Depicts s (Function.update text id p))
    (fun c _ s p hs => ?_) (by rwa [Function.update_eq_self])
  obtain ⟨s', hs', h'⟩ := hs.write hid c
  rw [Function.update_self, Function.update_idem] at h'
  exact ⟨s', hs', h'⟩

/-- What an operation does to the text screens. -/
def textStep (text : ℤ → TextScreen) : ScreenOp → ℤ → TextScreen
  | .writeBuf id buf =>
    if ttyValid id then Function.update text id (buf.foldl TextScreen.write (text id)) else text
  | .switch _ => text

theorem textStep_of_valid {id : ℤ} (hid : ttyValid id) (buf : List UInt8) :
    textStep text (.writeBuf id buf) =
      Function.update text id (buf.foldl TextScreen.write (text id)) := if_pos hid

theorem textStep_of_not_valid {id : ℤ} (hid : ¬ ttyValid id) (buf : List UInt8) :
    textStep text (.writeBuf id buf) = text := if_neg hid

theorem Depicts.step (h : Depicts s text) (op : ScreenOp) :
    ∃ s', screenStep s op = some s' ∧ Depicts s' (textStep text op) := by
  cases op with
  | writeBuf id buf =>
    by_cases hid : ttyValid id
    · obtain ⟨s', hs', hd⟩ := h.writeAll hid buf
      rw [textStep_of_valid hid]
      refine ⟨s', ?_, hd⟩
      simp only [screenStep, ttyWriteBuf, if_neg (not_not.mpr hid), hs', Option.map_some]
    · rw [textStep_of_not_valid hid]
      refine ⟨s, ?_, h⟩
      simp only [screenStep, ttyWriteBuf, if_pos hid, Option.map_some]
  | switch id =>
    obtain ⟨hm, hsame⟩ := h.mirrors.switch id
    refine ⟨_, rfl, hm, fun j hj => ?_⟩
    rw [hsame]
    exact h.terminals j hj

/-! ## Main theorem -/

/-- The bytes on the screens after the operations, from `tty_init` on. -/
def textAfter (ops : List ScreenOp) : ℤ → TextScreen :=
  ops.foldl textStep fun _ => TextScreen.empty

theorem depicts_of_run (s₀ : Console) (fresh : ℤ → Terminal) (ops : List ScreenOp) :
    ∃ s, ops.foldlM screenStep (ttyInit s₀ fresh) = some s ∧ Depicts s (textAfter ops) :=
  simulates_foldlM (fun op _ _ _ h => h.step op) (Depicts.init s₀ fresh)

/-- Every cell of every terminal and of the text buffer is white on black and holds the byte
    written there, or a space. -/
def Encoded (s : Console) (text : ℤ → TextScreen) : Prop :=
  (∀ id, ttyValid id → ∀ i, 0 ≤ i → i < ttyCellCount →
    WhiteOnBlack ((s.ttys id).cells i) ((text id).glyph i)) ∧
  ∀ i, 0 ≤ i → i < ttyCellCount → WhiteOnBlack (s.vga i) ((text s.activeTty).glyph i)

theorem Depicts.encoded_iff (h : Depicts s text) : Encoded s text ↔
    ∀ id, ttyValid id → ∀ i, 0 ≤ i → i < ttyCellCount → (text id).glyph i < 0x80 := by
  constructor
  · intro he id hid i h0 h1
    have hcell := he.1 id hid i h0 h1
    rw [(h.terminals id hid).cells i h0 h1] at hcell
    exact (whiteOnBlack_charCell _).mp hcell
  · intro hascii
    have hcells : ∀ id, ttyValid id → ∀ i, 0 ≤ i → i < ttyCellCount →
        WhiteOnBlack ((s.ttys id).cells i) ((text id).glyph i) := by
      intro id hid i h0 h1
      rw [(h.terminals id hid).cells i h0 h1]
      exact (whiteOnBlack_charCell _).mpr (hascii id hid i h0 h1)
    refine ⟨hcells, fun i h0 h1 => ?_⟩
    rw [h.mirrors.cells i h0 h1]
    exact hcells _ h.mirrors.active i h0 h1

/-- **Cell encoding.** From `tty_init` on, every sequence of writes of any bytes and of
    switches runs through. All low bytes are then those of the bytes on the screens, and
    every cell is encoded as it should be if and only if none of these bytes is negative
    as a `char`. -/
theorem cells_encoded_iff (s₀ : Console) (fresh : ℤ → Terminal) (ops : List ScreenOp) :
    ∃ s, ops.foldlM screenStep (ttyInit s₀ fresh) = some s ∧
      (∀ id, ttyValid id → ∀ i, 0 ≤ i → i < ttyCellCount →
        ((s.ttys id).cells i).toUInt8 = (textAfter ops id).glyph i) ∧
      (Encoded s (textAfter ops) ↔ ∀ id, ttyValid id → ∀ i, 0 ≤ i → i < ttyCellCount →
        (textAfter ops id).glyph i < 0x80) := by
  obtain ⟨s, hs, h⟩ := depicts_of_run s₀ fresh ops
  refine ⟨s, hs, fun id hid i h0 h1 => ?_, h.encoded_iff⟩
  rw [(h.terminals id hid).cells i h0 h1, charCell_low]

/-- The operation writes no byte from `0x80` on. -/
def ScreenOp.Ascii : ScreenOp → Prop
  | .writeBuf _ buf => ∀ c ∈ buf, c < 0x80
  | .switch _ => True

theorem textStep_ascii (h : ∀ id, (text id).Ascii) {op : ScreenOp} (hop : op.Ascii) (j : ℤ) :
    (textStep text op j).Ascii := by
  cases op with
  | writeBuf id buf =>
    by_cases hid : ttyValid id
    · rw [textStep_of_valid hid, Function.update_apply]
      split_ifs
      · exact List.foldlRecOn buf _ (h id) fun p hp c hc => hp.write (hop c hc)
      · exact h j
    · rw [textStep_of_not_valid hid]
      exact h j
  | switch id => exact h j

/-- As long as only bytes below `0x80` are written, every cell is encoded as it should be. -/
theorem cells_encoded_of_ascii (s₀ : Console) (fresh : ℤ → Terminal) {ops : List ScreenOp}
    (hops : ∀ op ∈ ops, op.Ascii) :
    ∃ s, ops.foldlM screenStep (ttyInit s₀ fresh) = some s ∧ Encoded s (textAfter ops) := by
  have hascii : ∀ id, (textAfter ops id).Ascii :=
    List.foldlRecOn ops textStep (motive := fun text => ∀ id, (text id).Ascii)
      (fun _ => TextScreen.empty_ascii) fun _ htext op hop => textStep_ascii htext (hops op hop)
  obtain ⟨s, hs, h⟩ := depicts_of_run s₀ fresh ops
  exact ⟨s, hs, h.encoded_iff.mpr fun id _ i _ _ => hascii id i⟩

/-- The byte `0x80` comes out with the attribute `0xFF`, in the terminal and on the
    display. -/
theorem high_byte_spoils_attribute :
    ∃ s, [ScreenOp.writeBuf 0 [0x80]].foldlM screenStep bootConsole = some s ∧
      (s.ttys 0).cells 0 = 0xFF80 ∧ s.vga 0 = 0xFF80 ∧
      ¬ Encoded s (textAfter [.writeBuf 0 [0x80]]) := by
  have hrun : ([ScreenOp.writeBuf 0 [0x80]].foldlM screenStep bootConsole).map
      (fun s => ((s.ttys 0).cells 0, s.vga 0)) = some (0xFF80, 0xFF80) := by decide +kernel
  obtain ⟨s, hs, hcells⟩ := Option.map_eq_some_iff.mp hrun
  obtain ⟨hcell, hvga⟩ := Prod.mk.inj hcells
  refine ⟨s, hs, hcell, hvga, fun he => ?_⟩
  have hattr := (he.2 0 le_rfl (by decide)).1
  rw [hvga] at hattr
  exact absurd hattr (by decide)

end Mboot.Tty
