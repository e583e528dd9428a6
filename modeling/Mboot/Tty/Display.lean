import Mboot.Common.Run
import Mboot.Tty.Model

/-!
# The display mirrors the active terminal

`tty_write` draws in three ways: it writes one cell through, redraws the whole
screen after a scroll or a form feed, or only moves the cursor. Each step
updates one terminal and keeps the display in agreement with the active one
(`Updates`).

* `Terminal.write`: what `tty_write` does to the terminal it is called for, and
  `ttyWrite_spec`, that this is all it does to the terminals.
* `Terminal.write_inRange`: the cursor stays on the screen, and no store leaves
  `cells`.
* `display_mirrors_active_terminal`: the display shows the cells and the cursor
  of the active terminal after every sequence of writes and switches.
-/

namespace Mboot.Tty

open Common

/-! ## One terminal -/

namespace Terminal

/-- The store of `tty_put_cell`. -/
def put (t : Terminal) (x y : ℤ) (c : UInt8) : Option Terminal :=
  if 0 ≤ y * vgaWidth + x ∧ y * vgaWidth + x < ttyCellCount then
    some { t with cells := Function.update t.cells (y * vgaWidth + x) (charCell c) }
  else none

/-- The `switch` of `tty_write` on the terminal itself. -/
def control (t : Terminal) (c : UInt8) : Option Terminal :=
  if c = 0x0A then some { t with curX := 0, curY := t.curY + 1 }
  else if c = 0x0D then some { t with curX := 0 }
  else if c = 0x08 then
    if t.curX > 0 then put { t with curX := t.curX - 1 } (t.curX - 1) t.curY 0x20 else some t
  else if c = 0x09 then some { t with curX := tabStop t.curX }
  else if c = 0x0C then some (ttyClear t)
  else (t.put t.curX t.curY c).map fun t => { t with curX := t.curX + 1 }

/-- The wrap at the right edge. -/
def wrap (t : Terminal) : Terminal :=
  if t.curX ≥ vgaWidth then { t with curX := 0, curY := t.curY + 1 } else t

/-- The scroll at the bottom. -/
def scroll (t : Terminal) : Terminal :=
  if t.curY ≥ vgaHeight then { t with cells := scrollCells t.cells, curY := vgaHeight - 1 } else t

/-- `tty_write` on the terminal itself. -/
def write (t : Terminal) (c : UInt8) : Option Terminal :=
  (t.control c).map fun t => t.wrap.scroll

/-- The cursor is on the screen. -/
structure InRange (t : Terminal) : Prop where
  left : 0 ≤ t.curX
  right : t.curX < vgaWidth
  top : 0 ≤ t.curY
  bottom : t.curY < vgaHeight

/-- What holds between the `switch` and the wrap: the cursor may have left the
    screen by one column or by one row. -/
structure NearRange (t : Terminal) : Prop where
  left : 0 ≤ t.curX
  right : t.curX ≤ vgaWidth
  top : 0 ≤ t.curY
  bottom : t.curY < vgaHeight ∨ t.curX = 0 ∧ t.curY = vgaHeight

end Terminal

theorem tabStop_eq {x : ℤ} (h0 : 0 ≤ x) (h1 : x < vgaWidth) : tabStop x = x + 8 - x % 8 := by
  have hall : ∀ n < 80, tabStop (n : ℕ) = (n : ℤ) + 8 - (n : ℤ) % 8 := by decide +kernel
  obtain ⟨n, rfl⟩ := Int.eq_ofNat_of_zero_le h0
  simp only [vgaWidth] at h1
  exact hall n (by omega)

namespace Terminal

variable {t t' : Terminal} {c : UInt8}

theorem put_eq (h0 : 0 ≤ t.curX) (h1 : t.curX < vgaWidth) (h2 : 0 ≤ t.curY)
    (h3 : t.curY < vgaHeight) (c : UInt8) : t.put t.curX t.curY c =
      some { t with
        cells := Function.update t.cells (t.curY * vgaWidth + t.curX) (charCell c) } := by
  rw [put, if_pos]
  simp only [vgaWidth, vgaHeight, ttyCellCount] at *
  omega

theorem InRange.control (h : t.InRange) (c : UInt8) :
    ∃ t', t.control c = some t' ∧ t'.NearRange := by
  have hwidth : (0 : ℤ) ≤ vgaWidth := by decide
  have hheight : (0 : ℤ) < vgaHeight := by decide
  obtain ⟨h0, h1, h2, h3⟩ := h
  unfold Terminal.control
  split_ifs with hn hr hb hx ht hf
  · refine ⟨_, rfl, ⟨le_rfl, hwidth, ?_, ?_⟩⟩
    · show 0 ≤ t.curY + 1
      omega
    · show t.curY + 1 < vgaHeight ∨ (0 : ℤ) = 0 ∧ t.curY + 1 = vgaHeight
      have hle : t.curY + 1 ≤ vgaHeight := by omega
      exact hle.lt_or_eq.imp id fun heq => ⟨rfl, heq⟩
  · exact ⟨_, rfl, ⟨le_rfl, hwidth, h2, Or.inl h3⟩⟩
  · have hput := put_eq (t := { t with curX := t.curX - 1 }) (show 0 ≤ t.curX - 1 by omega)
      (show t.curX - 1 < vgaWidth by omega) h2 h3 0x20
    refine ⟨_, hput, ⟨?_, ?_, h2, Or.inl h3⟩⟩
    · show 0 ≤ t.curX - 1
      omega
    · show t.curX - 1 ≤ vgaWidth
      omega
  · exact ⟨t, rfl, ⟨h0, h1.le, h2, Or.inl h3⟩⟩
  · have htab := tabStop_eq h0 h1
    refine ⟨_, rfl, ⟨?_, ?_, h2, Or.inl h3⟩⟩
    · show 0 ≤ tabStop t.curX
      omega
    · show tabStop t.curX ≤ vgaWidth
      simp only [vgaWidth] at *
      omega
  · exact ⟨_, rfl, ⟨le_rfl, hwidth, le_rfl, Or.inl hheight⟩⟩
  · rw [put_eq h0 h1 h2 h3]
    refine ⟨_, rfl, ⟨?_, ?_, h2, Or.inl h3⟩⟩
    · show 0 ≤ t.curX + 1
      omega
    · show t.curX + 1 ≤ vgaWidth
      omega

theorem NearRange.wrap_scroll (h : t.NearRange) : t.wrap.scroll.InRange := by
  obtain ⟨h0, h1, h2, h3⟩ := h
  simp only [vgaWidth, vgaHeight] at *
  unfold scroll wrap
  split_ifs <;> constructor <;> simp only [vgaWidth, vgaHeight] at * <;> omega

/-- No store leaves `cells`, and the cursor stays on the screen. -/
theorem write_inRange (h : t.InRange) (c : UInt8) : ∃ t', t.write c = some t' ∧ t'.InRange := by
  obtain ⟨t1, h1, hnear⟩ := h.control c
  exact ⟨t1.wrap.scroll, by rw [write, h1, Option.map_some], hnear.wrap_scroll⟩

end Terminal

/-! ## One terminal and the display -/

/-- The text buffer shows the cells of the active terminal. -/
def Drawn (s : Console) : Prop :=
  ∀ i, 0 ≤ i → i < ttyCellCount → s.vga i = (s.ttys s.activeTty).cells i

/-- `s'` is `s` with terminal `id` replaced by `t`, and the text buffer is kept up
    to date. -/
structure Updates (s : Console) (id : ℤ) (t : Terminal) (s' : Console) : Prop where
  ttys : s'.ttys = Function.update s.ttys id t
  active : s'.activeTty = s.activeTty
  ready : s'.ttyReady = s.ttyReady
  drawn : Drawn s → Drawn s'
  /-- Work on a terminal in the background does not move the cursor. -/
  cursor : id ≠ s.activeTty → s'.cursor = s.cursor

namespace Updates

variable {s s' s'' : Console} {id : ℤ} {t t' : Terminal}

theorem get (h : Updates s id t s') : s'.ttys id = t := by
  rw [h.ttys, Function.update_self]

theorem refl (s : Console) (id : ℤ) : Updates s id (s.ttys id) s :=
  ⟨(Function.update_eq_self id s.ttys).symm, rfl, rfl, fun h => h, fun _ => rfl⟩

theorem trans (h : Updates s id t s') (h' : Updates s' id t' s'') : Updates s id t' s'' := by
  refine ⟨?_, h'.active.trans h.active, h'.ready.trans h.ready, fun hd => h'.drawn (h.drawn hd), ?_⟩
  · rw [h'.ttys, h.ttys, Function.update_idem]
  · intro hid
    rw [h'.cursor (by rw [h.active]; exact hid), h.cursor hid]

end Updates

/-- A change of the cursor fields leaves the text buffer right. -/
theorem setTty_updates {s : Console} {id : ℤ} {t : Terminal}
    (hcells : t.cells = (s.ttys id).cells) : Updates s id t (s.setTty id t) := by
  refine ⟨rfl, rfl, rfl, fun hd i h0 h1 => ?_, fun _ => rfl⟩
  show s.vga i = (Function.update s.ttys id t s.activeTty).cells i
  rw [hd i h0 h1]
  by_cases hid : s.activeTty = id
  · rw [hid, Function.update_self, hcells]
  · rw [Function.update_of_ne hid]

/-- A redraw of the active terminal is right whatever the text buffer held. -/
theorem drawn_ttyRender (s : Console) : Drawn (ttyRender s s.activeTty) := by
  intro i h0 h1
  show (if 0 ≤ i ∧ i < ttyCellCount then (s.ttys s.activeTty).cells i else s.vga i) = _
  rw [if_pos ⟨h0, h1⟩]
  rfl

/-- A terminal in the background is not shown. -/
theorem background_updates {s : Console} {id : ℤ} (hid : id ≠ s.activeTty) (t : Terminal) :
    Updates s id t (s.setTty id t) := by
  refine ⟨rfl, rfl, rfl, fun hd i h0 h1 => ?_, fun _ => rfl⟩
  show s.vga i = (Function.update s.ttys id t s.activeTty).cells i
  rw [Function.update_of_ne (Ne.symm hid)]
  exact hd i h0 h1

/-- Replace a terminal and redraw it if it is the active one. -/
theorem render_updates (s : Console) (id : ℤ) (t : Terminal) :
    Updates s id t (if id = s.activeTty then ttyRender (s.setTty id t) s.activeTty
      else s.setTty id t) := by
  split_ifs with hid
  · exact ⟨rfl, rfl, rfl, fun _ => drawn_ttyRender (s.setTty id t), fun hne => absurd hid hne⟩
  · exact background_updates hid t

/-- A cell of the active terminal is written through. -/
theorem vgaPutChar_updates {s : Console} {id x y : ℤ} {c : UInt8} {t : Terminal}
    (hid : id = s.activeTty)
    (hcells : t.cells = Function.update (s.ttys id).cells (y * vgaWidth + x) (charCell c)) :
    Updates s id t (vgaPutChar (s.setTty id t) x y c) := by
  refine ⟨rfl, rfl, rfl, fun hd i h0 h1 => ?_, fun hne => absurd hid hne⟩
  show Function.update s.vga (y * vgaWidth + x) (charCell c) i =
    (Function.update s.ttys id t s.activeTty).cells i
  rw [← hid, Function.update_self, hcells]
  by_cases hi : i = y * vgaWidth + x
  · rw [hi, Function.update_self, Function.update_self]
  · rw [Function.update_of_ne hi, Function.update_of_ne hi, hd i h0 h1, ← hid]

theorem ttyPutCell_updates {s : Console} {id x y : ℤ} {c : UInt8} {t : Terminal}
    (h : (s.ttys id).put x y c = some t) :
    ∃ s', ttyPutCell s id x y c = some s' ∧ Updates s id t s' := by
  unfold Terminal.put at h
  split_ifs at h with hrange
  cases h
  refine ⟨_, by rw [ttyPutCell, if_pos hrange], ?_⟩
  by_cases hid : id = s.activeTty
  · rw [if_pos (show id = (s.setTty id _).activeTty from hid)]
    exact vgaPutChar_updates hid rfl
  · rw [if_neg (show ¬ id = (s.setTty id _).activeTty from hid)]
    exact background_updates hid _

/-! ## `tty_write` -/

theorem ttyControl_updates {s : Console} {id : ℤ} {c : UInt8} {t : Terminal}
    (h : (s.ttys id).control c = some t) :
    ∃ s', ttyControl s id c = some s' ∧ Updates s id t s' := by
  unfold Terminal.control at h
  unfold ttyControl
  dsimp only
  split_ifs at h ⊢ with hn hr hb hx ht hf hact
  · cases h
    exact ⟨_, rfl, setTty_updates rfl⟩
  · cases h
    exact ⟨_, rfl, setTty_updates rfl⟩
  · -- backspace: the cursor moves, then the cell is blanked
    have hmove : Updates s id { s.ttys id with curX := (s.ttys id).curX - 1 }
        (s.setTty id { s.ttys id with curX := (s.ttys id).curX - 1 }) := setTty_updates rfl
    rw [← hmove.get] at h
    obtain ⟨s', hs', hput⟩ := ttyPutCell_updates h
    exact ⟨s', hs', hmove.trans hput⟩
  · cases h
    exact ⟨s, rfl, Updates.refl s id⟩
  · cases h
    exact ⟨_, rfl, setTty_updates rfl⟩
  · cases h
    have hclear := render_updates s id (ttyClear (s.ttys id))
    rw [if_pos (show id = s.activeTty from hact)] at hclear
    exact ⟨_, rfl, hclear⟩
  · cases h
    exact ⟨_, rfl, background_updates (show id ≠ s.activeTty from hact) _⟩
  · -- a character: the cell is written, then the cursor moves
    obtain ⟨t1, ht1, rfl⟩ := Option.map_eq_some_iff.mp h
    obtain ⟨s1, hs1, hput⟩ := ttyPutCell_updates ht1
    refine ⟨s1.setTty id { t1 with curX := t1.curX + 1 }, ?_, ?_⟩
    · rw [hs1]
      show some (s1.setTty id { s1.ttys id with curX := (s1.ttys id).curX + 1 }) = _
      rw [hput.get]
    · exact hput.trans (setTty_updates (by rw [hput.get]))

theorem ttyWrap_updates (s : Console) (id : ℤ) :
    Updates s id (s.ttys id).wrap (ttyWrap s id) := by
  unfold ttyWrap Terminal.wrap
  dsimp only
  split_ifs with hedge
  · exact setTty_updates rfl
  · exact Updates.refl s id

/-- The end of `tty_write` scrolls, and shows the cursor of the active terminal. -/
theorem ttyFinish_updates (s : Console) (id : ℤ) :
    Updates s id (s.ttys id).scroll (ttyFinish s id) ∧
      (id = s.activeTty → (ttyFinish s id).cursor =
        ((s.ttys id).scroll.curY * vgaWidth + (s.ttys id).scroll.curX) % 2 ^ 16) := by
  have hscroll : Updates s id (s.ttys id).scroll
      (if (s.ttys id).curY ≥ vgaHeight then ttyScroll s id else s) := by
    unfold Terminal.scroll
    split_ifs with hbottom
    · exact render_updates s id _
    · exact Updates.refl s id
  generalize hs1 : (if (s.ttys id).curY ≥ vgaHeight then ttyScroll s id else s) = s1 at hscroll
  have hfinish : ttyFinish s id = if id = s.activeTty then
      vgaMoveCursor s1 (s.ttys id).scroll.curX (s.ttys id).scroll.curY else s1 := by
    rw [← hscroll.active, ← hscroll.get, ← hs1]
    rfl
  rw [hfinish]
  by_cases hid : id = s.activeTty
  · rw [if_pos hid]
    refine ⟨⟨hscroll.ttys, hscroll.active, hscroll.ready, hscroll.drawn, ?_⟩, fun _ => rfl⟩
    exact fun hne => absurd hid hne
  · rw [if_neg hid]
    exact ⟨hscroll, fun heq => absurd heq hid⟩

/-- `tty_write` does to its terminal what `Terminal.write` says, does nothing to
    the others, and keeps the display up to date. -/
theorem ttyWrite_spec {s : Console} (hready : s.ttyReady = true) {id : ℤ} (hid : ttyValid id)
    {c : UInt8} {t : Terminal} (h : (s.ttys id).write c = some t) :
    ∃ s', ttyWrite s id c = some s' ∧ Updates s id t s' ∧
      (id = s.activeTty → s'.cursor = (t.curY * vgaWidth + t.curX) % 2 ^ 16) := by
  obtain ⟨t1, ht1, rfl⟩ := Option.map_eq_some_iff.mp h
  obtain ⟨s1, hs1, h1⟩ := ttyControl_updates ht1
  have h2 := ttyWrap_updates s1 id
  obtain ⟨h3, hcursor⟩ := ttyFinish_updates (ttyWrap s1 id) id
  rw [h2.get, h1.get] at h3 hcursor
  rw [h1.get] at h2
  refine ⟨ttyFinish (ttyWrap s1 id) id, ?_, (h1.trans h2).trans h3, fun heq => hcursor ?_⟩
  · rw [ttyWrite, if_neg (by simp [hready, hid]), hs1, Option.map_some]
  · rw [h2.active, h1.active]
    exact heq

/-! ## Main theorem -/

/-- A write to a terminal, or a switch. -/
inductive ScreenOp
  | writeBuf (id : ℤ) (buf : List UInt8)
  | switch (id : ℤ)

/-- The console after one operation. -/
def screenStep (s : Console) : ScreenOp → Option Console
  | .writeBuf id buf => (ttyWriteBuf s id buf).map Prod.snd
  | .switch id => some (ttySwitch s id)

/-- The display shows the active terminal, and every cursor is on its screen. -/
structure Mirrors (s : Console) : Prop where
  ready : s.ttyReady = true
  active : ttyValid s.activeTty
  cells : Drawn s
  cursor : s.cursor = (s.ttys s.activeTty).curY * vgaWidth + (s.ttys s.activeTty).curX
  inRange : ∀ id, ttyValid id → (s.ttys id).InRange

/-- The cursor index of a cursor on the screen fits 16 bits. -/
theorem Terminal.InRange.index {t : Terminal} (h : t.InRange) :
    (t.curY * vgaWidth + t.curX) % 2 ^ 16 = t.curY * vgaWidth + t.curX := by
  obtain ⟨h0, h1, h2, h3⟩ := h
  simp only [vgaWidth, vgaHeight] at *
  omega

theorem Mirrors.init (s : Console) (fresh : ℤ → Terminal) : Mirrors (ttyInit s fresh) := by
  have hvalid : ttyValid 0 := by decide
  have hclear : ∀ id, ttyValid id → (ttyInit s fresh).ttys id = ttyClear (fresh id) := fun id hid =>
    if_pos hid
  refine ⟨rfl, hvalid, drawn_ttyRender _, ?_, fun id hid => ?_⟩
  · show (((ttyInit s fresh).ttys 0).curY * vgaWidth + ((ttyInit s fresh).ttys 0).curX) % 2 ^ 16 =
      ((ttyInit s fresh).ttys 0).curY * vgaWidth + ((ttyInit s fresh).ttys 0).curX
    rw [hclear 0 hvalid]
    rfl
  · rw [hclear id hid]
    have hwidth : (0 : ℤ) < vgaWidth := by decide
    have hheight : (0 : ℤ) < vgaHeight := by decide
    exact ⟨le_rfl, hwidth, le_rfl, hheight⟩

/-- One byte. -/
theorem Mirrors.write {s : Console} (h : Mirrors s) {id : ℤ} (hid : ttyValid id) (c : UInt8) :
    ∃ s', ttyWrite s id c = some s' ∧ Mirrors s' ∧ ∀ j, j ≠ id → s'.ttys j = s.ttys j := by
  obtain ⟨t, ht, hrange⟩ := Terminal.write_inRange (h.inRange id hid) c
  obtain ⟨s', hs', hup, hcursor⟩ := ttyWrite_spec h.ready hid ht
  have hother : ∀ j, j ≠ id → s'.ttys j = s.ttys j := fun j hj => by
    rw [hup.ttys, Function.update_of_ne hj]
  refine ⟨s', hs', ⟨hup.ready.trans h.ready, by rw [hup.active]; exact h.active,
    hup.drawn h.cells, ?_, ?_⟩, hother⟩
  · rw [hup.active]
    by_cases hact : id = s.activeTty
    · rw [hcursor hact, ← hact, hup.get, hrange.index]
    · rw [hup.cursor hact, hother _ (Ne.symm hact)]
      exact h.cursor
  · intro j hj
    by_cases hji : j = id
    · rw [hji, hup.get]
      exact hrange
    · rw [hother j hji]
      exact h.inRange j hj

/-- A whole buffer. -/
theorem Mirrors.writeAll {s : Console} (h : Mirrors s) {id : ℤ} (hid : ttyValid id)
    (buf : List UInt8) : ∃ s', buf.foldlM (fun s c => ttyWrite s id c) s = some s' ∧
      Mirrors s' ∧ ∀ j, j ≠ id → s'.ttys j = s.ttys j := by
  refine exists_foldlM (P := fun s' => Mirrors s' ∧ ∀ j, j ≠ id → s'.ttys j = s.ttys j)
    (fun c _ s1 h1 => ?_) ⟨h, fun _ _ => rfl⟩
  obtain ⟨s2, hs2, h2, hother⟩ := h1.1.write hid c
  exact ⟨s2, hs2, h2, fun j hj => (hother j hj).trans (h1.2 j hj)⟩

theorem Mirrors.switch {s : Console} (h : Mirrors s) (id : ℤ) :
    Mirrors (ttySwitch s id) ∧ (ttySwitch s id).ttys = s.ttys := by
  unfold ttySwitch
  split_ifs with hc
  · exact ⟨h, rfl⟩
  · have hid : ttyValid id := by
      by_contra hbad
      exact hc (Or.inl hbad)
    refine ⟨⟨h.ready, hid, drawn_ttyRender { s with activeTty := id }, ?_, h.inRange⟩, rfl⟩
    exact (h.inRange id hid).index

/-- The terminal an operation writes to. -/
def ScreenOp.writes : ScreenOp → ℤ → Prop
  | .writeBuf id _, j => id = j
  | .switch _, _ => False

/-- Every operation returns, keeps the display right and touches only the
    terminal it writes to. -/
theorem Mirrors.step {s : Console} (h : Mirrors s) (op : ScreenOp) :
    ∃ s', screenStep s op = some s' ∧ Mirrors s' ∧ ∀ j, ¬ op.writes j → s'.ttys j = s.ttys j := by
  cases op with
  | writeBuf id buf =>
    by_cases hid : ttyValid id
    · obtain ⟨s', hs', hm, hother⟩ := h.writeAll hid buf
      refine ⟨s', ?_, hm, fun j hj => hother j (Ne.symm hj)⟩
      simp only [screenStep, ttyWriteBuf, if_neg (not_not.mpr hid), hs', Option.map_some]
    · refine ⟨s, ?_, h, fun _ _ => rfl⟩
      simp only [screenStep, ttyWriteBuf, if_pos hid, Option.map_some]
  | switch id =>
    obtain ⟨hm, hsame⟩ := h.switch id
    exact ⟨_, rfl, hm, fun j _ => by rw [hsame]⟩

/-- **The display mirrors the active terminal.** From `tty_init` on, whatever the
    memory held, every sequence of writes of any bytes to any terminals and of
    switches runs through. Afterwards the text buffer equals the cells of the
    active terminal, the cursor index is that of its cursor, and any further
    operation leaves every terminal it does not write to as it is. -/
theorem display_mirrors_active_terminal (s₀ : Console) (fresh : ℤ → Terminal)
    (ops : List ScreenOp) :
    ∃ s, ops.foldlM screenStep (ttyInit s₀ fresh) = some s ∧ ttyValid s.activeTty ∧
      (∀ i, 0 ≤ i → i < ttyCellCount → s.vga i = (s.ttys s.activeTty).cells i) ∧
      s.cursor = (s.ttys s.activeTty).curY * vgaWidth + (s.ttys s.activeTty).curX ∧
      ∀ op s', screenStep s op = some s' → ∀ j, ¬ op.writes j →
        (s'.ttys j).cells = (s.ttys j).cells ∧ (s'.ttys j).curX = (s.ttys j).curX ∧
          (s'.ttys j).curY = (s.ttys j).curY := by
  obtain ⟨s, hs, h⟩ : ∃ s, ops.foldlM screenStep (ttyInit s₀ fresh) = some s ∧ Mirrors s := by
    refine exists_foldlM (fun op _ s h => ?_) (Mirrors.init s₀ fresh)
    obtain ⟨s', hs', hm, -⟩ := h.step op
    exact ⟨s', hs', hm⟩
  refine ⟨s, hs, h.active, h.cells, h.cursor, fun op s' hs' j hj => ?_⟩
  obtain ⟨s1, hs1, -, hother⟩ := h.step op
  cases hs1.symm.trans hs'
  rw [hother j hj]
  exact ⟨rfl, rfl, rfl⟩

end Mboot.Tty
