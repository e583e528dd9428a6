import Mboot.Tty.Discipline

/-!
# The echo of a line

`tty_read` echoes a printed key as itself and an erased one as backspace, space,
backspace. `tty_write` wraps at the right edge, but its backspace does nothing in
column 0: a line that went on in the next row cannot be erased back over the
edge. The cursor then stays in column 0, one cell ahead of the line, and the
erased character stays on the screen. From there on the cursor is never again
where the line ends.

The proof reads the endless sheet of `Paper` in row-major order, where a printed
key moves the cursor on by one cell, and an erased one back by one cell except
in column 0 (`Paper.erase_spec`).

* `echo_matches_line_iff`: for every starting position and all printed and erased
  keys, the screen shows the line up to the cursor exactly when no character is
  erased with the cursor in column 0.
* `erase_over_the_edge`: one key in the last column, and a backspace.
-/

namespace Mboot.Tty

open Common

/-! ## The sheet in row-major order -/

namespace Paper

/-- The cursor, counting cells row by row. -/
def index (p : Paper) : ℤ := p.row * vgaWidth + p.col

/-- The cell with a row-major index. -/
def get (p : Paper) (i : ℤ) : UInt16 := p.cell (i / vgaWidth, i % vgaWidth)

/-- The cursor is between the edges. -/
structure OnSheet (p : Paper) : Prop where
  left : 0 ≤ p.col
  right : p.col < vgaWidth

/-- Backspace, space, backspace. -/
def erase (p : Paper) : Paper := [0x08, 0x20, 0x08].foldl write p

variable {p : Paper} {c : UInt8}

theorem OnSheet.col_eq (h : p.OnSheet) : p.col = p.index % vgaWidth := by
  have h0 := h.left
  have h1 := h.right
  simp only [index, vgaWidth] at *
  omega

theorem get_update {row col : ℤ} (h0 : 0 ≤ col) (h1 : col < vgaWidth) (v : UInt16) (y x i : ℤ) :
    (Paper.mk (Function.update p.cell (row, col) v) y x).get i =
      if i = row * vgaWidth + col then v else p.get i := by
  unfold get
  split_ifs with hi
  · have hrow : i / vgaWidth = row := by simp only [vgaWidth] at *; omega
    have hcol : i % vgaWidth = col := by simp only [vgaWidth] at *; omega
    rw [hrow, hcol]
    exact Function.update_self ..
  · apply Function.update_of_ne
    rw [ne_eq, Prod.mk.injEq]
    simp only [vgaWidth] at *
    omega

/-- The wrap leaves the cells, and the row-major index of the cursor. -/
theorem wrap_spec (h0 : 0 ≤ p.col) (h1 : p.col ≤ vgaWidth) :
    p.wrap.OnSheet ∧ p.wrap.index = p.index ∧ p.wrap.get = p.get := by
  have hwidth : (0 : ℤ) < vgaWidth := by decide
  unfold wrap
  split_ifs with hedge
  · refine ⟨⟨le_rfl, hwidth⟩, ?_, rfl⟩
    show (p.row + 1) * vgaWidth + 0 = p.row * vgaWidth + p.col
    rw [le_antisymm h1 hedge]
    ring
  · exact ⟨⟨h0, not_le.mp hedge⟩, rfl, rfl⟩

theorem write_print (h : p.OnSheet) (hk : keyKind c = .print) :
    (p.write c).OnSheet ∧ (p.write c).index = p.index + 1 ∧
      ∀ i, (p.write c).get i = if i = p.index then ascii c else p.get i := by
  have hne : ∀ d, keyKind d ≠ .print → c ≠ d := by
    rintro d hd rfl
    exact hd hk
  have hcontrol : p.control c =
      { p with cell := Function.update p.cell (p.row, p.col) (ascii c), col := p.col + 1 } := by
    rw [control, if_neg (hne _ (by decide)), if_neg (hne _ (by decide)),
      if_neg (hne _ (by decide)), if_neg (hne _ (by decide))]
  obtain ⟨hon, hindex, hget⟩ := wrap_spec (p := p.control c)
    (by rw [hcontrol]; exact add_nonneg h.left zero_le_one)
    (by rw [hcontrol]; exact Int.add_one_le_of_lt h.right)
  refine ⟨hon, ?_, fun i => ?_⟩
  · rw [write, hindex, hcontrol]
    exact (add_assoc ..).symm
  · rw [write, hget, hcontrol]
    exact get_update h.left h.right ..

theorem write_backspace (h : p.OnSheet) :
    (p.write 0x08).OnSheet ∧
      (p.write 0x08).index = (if p.index % vgaWidth = 0 then p.index else p.index - 1) ∧
      ∀ i, (p.write 0x08).get i =
        if p.index % vgaWidth ≠ 0 ∧ i = p.index - 1 then blank else p.get i := by
  have h0 := h.left
  have h1 := h.right
  rw [← h.col_eq]
  have hcontrol : p.control 0x08 = if p.col > 0 then
      { p with cell := Function.update p.cell (p.row, p.col - 1) blank, col := p.col - 1 }
      else p := rfl
  by_cases hcol : p.col > 0
  · rw [if_pos hcol] at hcontrol
    obtain ⟨hon, hindex, hget⟩ := wrap_spec (p := p.control 0x08)
      (by rw [hcontrol]; exact Int.sub_nonneg_of_le hcol)
      (by rw [hcontrol]; show p.col - 1 ≤ vgaWidth; omega)
    rw [if_neg hcol.ne']
    refine ⟨hon, ?_, fun i => ?_⟩
    · rw [write, hindex, hcontrol]
      exact (add_sub_assoc ..).symm
    · rw [write, hget, hcontrol, get_update (by omega) (by omega), ← add_sub_assoc]
      simp only [ne_eq, hcol.ne', not_false_eq_true, true_and]
      rfl
  · have hzero : p.col = 0 := by omega
    rw [if_neg hcol] at hcontrol
    obtain ⟨hon, hindex, hget⟩ := wrap_spec h0 h1.le
    rw [write, hcontrol, hindex, hget, if_pos hzero]
    refine ⟨hon, rfl, fun i => ?_⟩
    rw [if_neg fun h => h.1 hzero]

/-- The echo of an erased character: back by one cell, but not out of column 0.
    The cell under the cursor is blank afterwards. -/
theorem erase_spec (h : p.OnSheet) :
    p.erase.OnSheet ∧
      p.erase.index = (if p.index % vgaWidth = 0 then p.index else p.index - 1) ∧
      ∀ i, p.erase.get i = if i = p.erase.index then blank else p.get i := by
  have hspace : keyKind 0x20 = .print := by decide
  have hblank : ascii 0x20 = blank := rfl
  obtain ⟨hon1, hindex1, hget1⟩ := write_backspace h
  obtain ⟨hon2, hindex2, hget2⟩ := write_print hon1 hspace
  obtain ⟨hon3, hindex3, hget3⟩ := write_backspace hon2
  have hwidth : vgaWidth = 80 := rfl
  -- the second backspace is not in column 0
  have hcol : ((p.write 0x08).write 0x20).index % vgaWidth ≠ 0 := by
    rw [hindex2, hindex1, hwidth]
    split_ifs <;> omega
  have hback : ((p.write 0x08).write 0x20).index - 1 = (p.write 0x08).index := by
    rw [hindex2, add_sub_cancel_right]
  rw [if_neg hcol, hback] at hindex3
  have hlast : p.erase.index = (p.write 0x08).index := hindex3
  refine ⟨hon3, hlast.trans hindex1, fun i => ?_⟩
  rw [hlast]
  refine (hget3 i).trans ?_
  rw [hback, hget2, hget1, hblank]
  by_cases hi : i = (p.write 0x08).index
  · rw [if_pos ⟨hcol, hi⟩, if_pos hi]
  · rw [if_neg fun h => hi h.2, if_neg hi, if_neg hi, if_neg]
    rintro ⟨hedge, hbefore⟩
    rw [if_neg hedge] at hindex1
    exact hi (hbefore.trans hindex1.symm)

/-- The echo moves the cursor on by at most one cell a byte. -/
theorem index_write_le (h : p.OnSheet) (hc : keyKind c = .print ∨ c = 0x08) :
    (p.write c).OnSheet ∧ (p.write c).index ≤ p.index + 1 := by
  rcases hc with hc | rfl
  · obtain ⟨hon, hindex, -⟩ := write_print h hc
    exact ⟨hon, hindex.le⟩
  · obtain ⟨hon, hindex, -⟩ := write_backspace h
    refine ⟨hon, ?_⟩
    rw [hindex]
    split_ifs <;> omega

end Paper

/-! ## The line on the sheet -/

/-- The sheet shows `text` from `start` to the cursor. -/
structure Shows (start : ℤ) (p : Paper) (text : List UInt8) : Prop where
  onSheet : p.OnSheet
  index : p.index = start + text.length
  cells : ∀ (i : ℕ) (h : i < text.length), p.get (start + i) = Paper.ascii text[i]

/-- The cursor is behind the end of `text`. -/
structure Ahead (start : ℤ) (p : Paper) (text : List UInt8) : Prop where
  onSheet : p.OnSheet
  index : start + text.length < p.index

section

variable {start : ℤ} {p : Paper} {text : List UInt8} {c : UInt8}

theorem Shows.print (h : Shows start p text) (hk : keyKind c = .print) :
    Shows start (p.write c) (text ++ [c]) := by
  obtain ⟨hon, hindex, hget⟩ := Paper.write_print h.onSheet hk
  refine ⟨hon, ?_, fun i hi => ?_⟩
  · rw [hindex, h.index, List.length_append, List.length_singleton]
    push_cast
    ring
  · rw [hget, h.index]
    by_cases hlast : i < text.length
    · rw [if_neg (by omega), List.getElem_append_left hlast]
      exact h.cells i hlast
    · rw [List.length_append, List.length_singleton] at hi
      have hi : i = text.length := by omega
      subst hi
      rw [if_pos rfl, List.getElem_concat_length rfl]

theorem Ahead.print (h : Ahead start p text) (hk : keyKind c = .print) :
    Ahead start (p.write c) (text ++ [c]) := by
  obtain ⟨hon, hindex, -⟩ := Paper.write_print h.onSheet hk
  refine ⟨hon, ?_⟩
  have := h.index
  rw [hindex, List.length_append, List.length_singleton]
  push_cast
  omega

theorem Shows.erase (h : Shows start p text) (hne : text ≠ [])
    (hedge : (start + text.length) % vgaWidth ≠ 0) : Shows start p.erase text.dropLast := by
  have hpos := List.length_pos_of_ne_nil hne
  obtain ⟨hon, hindex, hget⟩ := Paper.erase_spec h.onSheet
  rw [h.index, if_neg hedge] at hindex
  refine ⟨hon, ?_, fun i hi => ?_⟩
  · rw [hindex, List.length_dropLast]
    omega
  · rw [List.length_dropLast] at hi
    rw [hget, hindex, if_neg (by omega), List.getElem_dropLast]
    exact h.cells i (by omega)

/-- In column 0 the cursor stays, and the line gets shorter. -/
theorem Shows.erase_edge (h : Shows start p text) (hne : text ≠ [])
    (hedge : (start + text.length) % vgaWidth = 0) : Ahead start p.erase text.dropLast := by
  have hpos := List.length_pos_of_ne_nil hne
  obtain ⟨hon, hindex, -⟩ := Paper.erase_spec h.onSheet
  rw [h.index, if_pos hedge] at hindex
  refine ⟨hon, ?_⟩
  rw [hindex, List.length_dropLast]
  omega

theorem Ahead.erase (h : Ahead start p text) (hne : text ≠ []) :
    Ahead start p.erase text.dropLast := by
  have hpos := List.length_pos_of_ne_nil hne
  have hlt := h.index
  obtain ⟨hon, hindex, -⟩ := Paper.erase_spec h.onSheet
  refine ⟨hon, ?_⟩
  rw [hindex, List.length_dropLast]
  split_ifs <;> omega

end

/-! ## The line on the terminal -/

/-- The console, and the rows the terminal has scrolled by since the line was
    begun. -/
structure Echo where
  console : Console
  scrolled : ℤ

/-- `tty_write` on terminal `id`. -/
def Echo.write (id : ℤ) (e : Echo) (c : UInt8) : Option Echo :=
  (ttyWrite e.console id c).map fun d => ⟨d, e.scrolled + (e.console.ttys id).scrolledBy c⟩

/-- A round of the loop in `tty_read` with its echo. -/
def Echo.key (id : ℤ) (e : Echo) (c : UInt8) : Option Echo :=
  let r := ttyEditKey (e.console.ttys id) c
  r.echo.foldlM (Echo.write id) { e with console := e.console.setTty id r.terminal }

/-- The line of `t` was begun at the cursor of `t₀`, `scrolled` rows ago: it is on
    the screen from there to the cursor, and the cursor is `line_fill` cells on. -/
structure EchoMatches (t₀ t : Terminal) (scrolled : ℤ) : Prop where
  onScreen : 0 ≤ t₀.curY * vgaWidth + t₀.curX - scrolled * vgaWidth
  cursor : t.curY * vgaWidth + t.curX =
    t₀.curY * vgaWidth + t₀.curX - scrolled * vgaWidth + t.lineFill
  cells : ∀ i, 0 ≤ i → i < t.lineFill →
    t.cells (t₀.curY * vgaWidth + t₀.curX - scrolled * vgaWidth + i) = charCell (t.line i)

/-- No character is erased with the cursor in column 0; `x` is the column the line
    begins in. -/
def ErasesInRow (x : ℤ) (keys : List UInt8) : Prop :=
  ∀ pre c, pre ++ [c] <+: keys → keyKind c = .erase → (edit pre).current ≠ [] →
    (x + (edit pre).current.length) % vgaWidth ≠ 0

theorem erasesInRow_snoc (x : ℤ) (keys : List UInt8) (c : UInt8) :
    ErasesInRow x (keys ++ [c]) ↔ ErasesInRow x keys ∧
      (keyKind c = .erase → (edit keys).current ≠ [] →
        (x + (edit keys).current.length) % vgaWidth ≠ 0) := by
  constructor
  · intro h
    refine ⟨fun pre d hpre => h pre d (hpre.trans (List.prefix_append _ _)), ?_⟩
    exact h keys c List.prefix_rfl
  · rintro ⟨h, hc⟩ pre d hpre
    rcases List.prefix_concat_iff.mp hpre with heq | hpre
    · obtain ⟨rfl, hlast⟩ := List.append_inj' heq rfl
      obtain rfl := List.singleton_injective hlast
      exact hc
    · exact h pre d hpre

/-- Where the terminal and the sheet are between two keys. -/
structure Echoes (id : ℤ) (e : Echo) (p : Paper) (text : List UInt8) : Prop where
  ready : e.console.ttyReady = true
  inRange : (e.console.ttys id).InRange
  window : Window e.scrolled (e.console.ttys id) p
  lineOk : LineOk (e.console.ttys id)
  linePos : (e.console.ttys id).linePos = 0
  text : lineText (e.console.ttys id) = text

section

variable {id : ℤ} {e : Echo} {p : Paper} {text : List UInt8} {c : UInt8}

theorem scrolledBy_cases {t t' : Terminal} (h : t.write c = some t') :
    t.scrolledBy c = 0 ∨ t.scrolledBy c = 1 ∧ t'.curY = vgaHeight - 1 := by
  obtain ⟨t1, ht1, rfl⟩ := Option.map_eq_some_iff.mp h
  unfold Terminal.scrolledBy Terminal.scroll
  rw [ht1]
  dsimp only
  split_ifs
  · exact Or.inr ⟨rfl, rfl⟩
  · exact Or.inl rfl

theorem Window.onSheet {k : ℤ} {t : Terminal} (h : Window k t p) (hin : t.InRange) : p.OnSheet :=
  ⟨by rw [h.col]; exact hin.left, by rw [h.col]; exact hin.right⟩

/-- The rows scrolled by are bounded by the furthest the cursor has come. -/
theorem scrolled_le {k start : ℤ} {t t' : Terminal} (hk : k * vgaWidth ≤ start)
    (ht' : t.write c = some t') (hin : t'.InRange) (hw : Window (k + t.scrolledBy c) t' p)
    (hindex : p.index ≤ start + (vgaHeight - 1) * vgaWidth) :
    (k + t.scrolledBy c) * vgaWidth ≤ start := by
  have hrow := hw.row
  have hleft := (hw.onSheet hin).left
  rcases scrolledBy_cases ht' with hzero | ⟨hone, hbottom⟩
  · rw [hzero, add_zero]
    exact hk
  · rw [hone] at hrow ⊢
    simp only [Paper.index, vgaWidth, vgaHeight] at *
    omega

/-- The bytes of one round. -/
theorem Echoes.writes (h : Echoes id e p text) (hid : ttyValid id) {bytes : List UInt8}
    (hbytes : ∀ c ∈ bytes, keyKind c = .print ∨ c = 0x08) :
    ∃ e', bytes.foldlM (Echo.write id) e = some e' ∧
      Echoes id e' (bytes.foldl Paper.write p) text ∧
      ∀ start, e.scrolled * vgaWidth ≤ start →
        p.index + bytes.length ≤ start + (vgaHeight - 1) * vgaWidth →
        e'.scrolled * vgaWidth ≤ start := by
  induction bytes generalizing e p with
  | nil => exact ⟨e, rfl, h, fun _ hk _ => hk⟩
  | cons c bytes ih =>
    have hc := hbytes c List.mem_cons_self
    have hascii : c < 0x80 ∧ c ≠ 0x0C := by
      rcases hc with hc | rfl
      · exact ⟨print_lt hc, print_ne_formFeed hc⟩
      · decide
    obtain ⟨t, ht, hin, hw⟩ := h.window.write h.inRange hascii.1 hascii.2
    obtain ⟨d, hd, hup, -⟩ := ttyWrite_spec h.ready hid ht
    have hsame := Terminal.write_input ht
    rw [if_neg hascii.2] at hsame
    have hnext : Echoes id ⟨d, e.scrolled + (e.console.ttys id).scrolledBy c⟩ (p.write c) text := by
      rw [← hup.get] at hin hw hsame
      exact ⟨hup.ready.trans h.ready, hin, hw, h.lineOk.of_eq hsame.lineFill hsame.linePos,
        hsame.linePos.trans h.linePos, hsame.lineText.trans h.text⟩
    obtain ⟨e', he', hstate, hbound⟩ := ih hnext fun b hb => hbytes b (List.mem_cons_of_mem c hb)
    have hstep : Echo.write id e c =
        some ⟨d, e.scrolled + (e.console.ttys id).scrolledBy c⟩ := by
      rw [Echo.write, hd, Option.map_some]
    refine ⟨e', ?_, hstate, fun start hk hroom => hbound start ?_ ?_⟩
    · rw [List.foldlM_cons, hstep]
      exact he'
    · have hle := (Paper.index_write_le (h.window.onSheet h.inRange) hc).2
      rw [List.length_cons] at hroom
      exact scrolled_le hk ht hin hw (by push_cast at hroom; omega)
    · have hle := (Paper.index_write_le (h.window.onSheet h.inRange) hc).2
      rw [List.length_cons] at hroom
      push_cast at hroom
      omega

/-- What a round echoes behind the line `text`. -/
def echoOf (text : List UInt8) (c : UInt8) : List UInt8 :=
  match keyKind c with
  | .newline => [0x0D, 0x0A]
  | .erase => if text = [] then [] else [0x08, 0x20, 0x08]
  | .print => if text.length < 255 then [c] else []
  | .other => []

theorem ttyEditKey_echo_eq {t : Terminal} (h : LineOk t) (hpos : t.linePos = 0) (c : UInt8) :
    (ttyEditKey t c).echo = echoOf (lineText t) c := by
  have hfill : (lineText t).length = t.lineFill.toNat := by rw [length_lineText, hpos, sub_zero]
  have h0 : 0 ≤ t.lineFill := hpos ▸ h.le
  rw [ttyEditKey_eq]
  unfold echoOf
  cases keyKind c with
  | newline => rfl
  | erase =>
    dsimp only
    have hnil : lineText t = [] ↔ ¬ t.lineFill > 0 := by
      rw [← List.length_eq_zero_iff, hfill]
      omega
    by_cases hsome : t.lineFill > 0
    · rw [if_pos hsome, if_neg (mt hnil.mp (not_not.mpr hsome))]
    · rw [if_neg hsome, if_pos (hnil.mpr hsome)]
  | print =>
    dsimp only
    by_cases hroom : t.lineFill < ttyLineSize - 1
    · rw [if_pos hroom, if_pos (by simp only [ttyLineSize] at hroom; omega)]
    · rw [if_neg hroom, if_neg (by simp only [ttyLineSize] at hroom; omega)]
  | other => rfl

/-- A printed or an erased key. -/
theorem Echoes.key {ed : Edited} (h : Echoes id e p ed.current) (hid : ttyValid id) (hed : ed.Ok)
    (hc : keyKind c = .print ∨ keyKind c = .erase) :
    ∃ e', Echo.key id e c = some e' ∧
      Echoes id e' ((echoOf ed.current c).foldl Paper.write p) (ed.key c).current ∧
      ∀ start, e.scrolled * vgaWidth ≤ start →
        p.index + 3 ≤ start + (vgaHeight - 1) * vgaWidth → e'.scrolled * vgaWidth ≤ start := by
  have hlen : (lineText (e.console.ttys id)).length ≤ 255 := h.text ▸ hed.length
  obtain ⟨hok, hpos, hedit⟩ := ttyEditKey_text h.lineOk h.linePos hlen c ed.lines
  have hecho := ttyEditKey_echo_eq h.lineOk h.linePos c
  have hlast : (ttyEditKey (e.console.ttys id) c).last = false := by
    rw [ttyEditKey_last, decide_eq_false]
    rcases hc with hc | hc <;> rw [hc] <;> exact KeyKind.noConfusion
  rw [hlast, h.text] at hedit
  rw [h.text] at hecho
  obtain ⟨line, fill, hline⟩ := ttyEditKey_line (e.console.ttys id) c
  have hget := Console.setTty_get e.console id (ttyEditKey (e.console.ttys id) c).terminal
  -- the edited line, before its echo
  have hbefore : Echoes id { e with
      console := e.console.setTty id (ttyEditKey (e.console.ttys id) c).terminal } p
      (ed.key c).current := by
    refine ⟨h.ready, ?_, ?_, ?_, ?_, ?_⟩
    · rw [hget, hline]
      exact h.inRange.of_eq rfl rfl
    · rw [hget, hline]
      exact ⟨h.window.offset, h.window.cells, h.window.row, h.window.col, h.window.below⟩
    · rw [hget]
      exact hok
    · rw [hget]
      exact hpos
    · rw [hget]
      exact (congrArg Edited.current hedit).symm
  have hbytes : (echoOf ed.current c).length ≤ 3 ∧
      ∀ b ∈ echoOf ed.current c, keyKind b = .print ∨ b = 0x08 := by
    unfold echoOf
    rcases hc with hc | hc
    · rw [hc]
      dsimp only
      split_ifs
      · refine ⟨by simp, fun b hb => ?_⟩
        rw [List.mem_singleton.mp hb]
        exact Or.inl hc
      · exact ⟨by simp, List.forall_mem_nil _⟩
    · rw [hc]
      dsimp only
      split_ifs
      · exact ⟨by simp, List.forall_mem_nil _⟩
      · refine ⟨le_rfl, fun b hb => ?_⟩
        simp only [List.mem_cons, List.not_mem_nil, or_false] at hb
        rcases hb with rfl | rfl | rfl
        · exact Or.inr rfl
        · exact Or.inl (by decide)
        · exact Or.inr rfl
  obtain ⟨e', he', hstate, hbound⟩ := hbefore.writes hid hbytes.2
  refine ⟨e', ?_, hstate, fun start hk hroom => hbound start hk ?_⟩
  · rw [Echo.key, hecho]
    exact he'
  · have := hbytes.1
    omega

/-- The sheet after a key: the line is shown as long as nothing was erased in
    column 0, and the cursor is ahead of it ever after. -/
theorem shows_or_ahead {start x : ℤ} {keys : List UInt8} (hx : start % vgaWidth = x % vgaWidth)
    (hc : keyKind c = .print ∨ keyKind c = .erase)
    (hshows : ErasesInRow x keys → Shows start p (edit keys).current)
    (hahead : ¬ ErasesInRow x keys → Ahead start p (edit keys).current) :
    (ErasesInRow x (keys ++ [c]) →
      Shows start ((echoOf (edit keys).current c).foldl Paper.write p)
        (edit (keys ++ [c])).current) ∧
    (¬ ErasesInRow x (keys ++ [c]) →
      Ahead start ((echoOf (edit keys).current c).foldl Paper.write p)
        (edit (keys ++ [c])).current) := by
  have hmod : (start + (edit keys).current.length) % vgaWidth =
      (x + (edit keys).current.length) % vgaWidth := Int.ModEq.add_right _ hx
  rw [erasesInRow_snoc, edit_snoc]
  unfold Edited.key echoOf
  rcases hc with hc | hc
  · have hsame : (ErasesInRow x keys ∧ (keyKind c = .erase → (edit keys).current ≠ [] →
        (x + (edit keys).current.length) % vgaWidth ≠ 0)) ↔ ErasesInRow x keys := by
      rw [hc]
      exact and_iff_left fun h => KeyKind.noConfusion h
    rw [hsame, hc]
    dsimp only
    split_ifs with hroom
    · exact ⟨fun h => (hshows h).print hc, fun h => (hahead h).print hc⟩
    · exact ⟨hshows, hahead⟩
  · simp only [hc, forall_const]
    by_cases hnil : (edit keys).current = []
    · have hsame : (ErasesInRow x keys ∧ ((edit keys).current ≠ [] →
          (x + (edit keys).current.length) % vgaWidth ≠ 0)) ↔ ErasesInRow x keys :=
        and_iff_left fun h => absurd hnil h
      rw [hsame, if_pos hnil, hnil, List.dropLast_nil]
      rw [hnil] at hshows hahead
      exact ⟨hshows, hahead⟩
    · rw [if_neg hnil]
      refine ⟨fun h => (hshows h.1).erase hnil (hmod ▸ h.2 hnil), fun h => ?_⟩
      by_cases hrow : ErasesInRow x keys
      · have hedge : (x + (edit keys).current.length) % vgaWidth = 0 := by
          by_contra hne
          exact h ⟨hrow, fun _ => hne⟩
        exact (hshows hrow).erase_edge hnil (hmod.trans hedge)
      · exact (hahead hrow).erase hnil

end

/-! ## Main theorem -/

/-- The sheet that shows a terminal as it is. -/
def Terminal.sheet (t : Terminal) : Paper :=
  ⟨fun i => if i.1 < vgaHeight then t.cells (i.1 * vgaWidth + i.2) else blank, t.curY, t.curX⟩

theorem Terminal.window_sheet (t : Terminal) : Window 0 t t.sheet := by
  refine ⟨le_rfl, fun r c _ hr _ _ => ?_, (zero_add _).symm, rfl, fun r c hr => ?_⟩
  · show _ = if 0 + r < vgaHeight then t.cells ((0 + r) * vgaWidth + c) else blank
    rw [zero_add, if_pos hr]
  · exact if_neg (not_lt.mpr (by rwa [zero_add] at hr))

/-- All keys of a line. -/
theorem Echoes.keys {s : Console} {id : ℤ} (hready : s.ttyReady = true) (hid : ttyValid id)
    (hin : (s.ttys id).InRange) (hfill : (s.ttys id).lineFill = 0) (hpos : (s.ttys id).linePos = 0)
    (keys : List UInt8) (hkeys : ∀ c ∈ keys, keyKind c = .print ∨ keyKind c = .erase) :
    ∃ e p, keys.foldlM (Echo.key id) ⟨s, 0⟩ = some e ∧ Echoes id e p (edit keys).current ∧
      (ErasesInRow (s.ttys id).curX keys →
        Shows (s.ttys id).sheet.index p (edit keys).current) ∧
      (¬ ErasesInRow (s.ttys id).curX keys →
        Ahead (s.ttys id).sheet.index p (edit keys).current) ∧
      (ErasesInRow (s.ttys id).curX keys →
        e.scrolled * vgaWidth ≤ (s.ttys id).sheet.index) := by
  induction keys using List.reverseRecOn with
  | nil =>
    have hwin := (s.ttys id).window_sheet
    have hnil : lineText (s.ttys id) = [] := by
      rw [← List.length_eq_zero_iff, length_lineText, hfill, hpos]
      rfl
    have hrow : ErasesInRow (s.ttys id).curX [] := fun pre c hpre => by
      have := List.prefix_nil.mp hpre
      simp at this
    refine ⟨⟨s, 0⟩, (s.ttys id).sheet, rfl, ⟨hready, hin, hwin, ⟨hpos.ge, ?_⟩, hpos, hnil⟩,
      fun _ => ⟨hwin.onSheet hin, (add_zero _).symm, fun i hi => by cases hi⟩,
      fun h => absurd hrow h, fun _ => ?_⟩
    · rw [hfill, hpos]
    · show (0 : ℤ) * vgaWidth ≤ (s.ttys id).curY * vgaWidth + (s.ttys id).curX
      have h0 := hin.left
      have h2 := hin.top
      simp only [vgaWidth]
      omega
  | append_singleton keys c ih =>
    have hc := hkeys c (by simp)
    obtain ⟨e, p, he, hstate, hshows, hahead, hscrolled⟩ := ih fun d hd => hkeys d (by simp [hd])
    obtain ⟨e', he', hstate', hbound⟩ := hstate.key hid (edit_ok keys) hc
    have hx : (s.ttys id).sheet.index % vgaWidth = (s.ttys id).curX % vgaWidth := by
      show ((s.ttys id).curY * vgaWidth + (s.ttys id).curX) % vgaWidth = _
      rw [add_comm, Int.add_mul_emod_self_right]
    obtain ⟨hshows', hahead'⟩ := shows_or_ahead hx hc hshows hahead
    rw [← edit_snoc] at hstate'
    refine ⟨e', _, ?_, hstate', hshows', hahead', fun h => ?_⟩
    · rw [List.foldlM_append, he, Option.bind_eq_bind, Option.bind_some, List.foldlM_cons, he']
      rfl
    · have hrow := ((erasesInRow_snoc _ _ _).mp h).1
      apply hbound _ (hscrolled hrow)
      rw [(hshows hrow).index]
      have hlen := (edit_ok keys).length
      simp only [vgaWidth, vgaHeight]
      omega

/-- The screen in row-major order is the sheet from row `k` on. -/
theorem Window.get {k i : ℤ} {t : Terminal} {p : Paper} (h : Window k t p)
    (h0 : 0 ≤ i - k * vgaWidth) (h1 : i - k * vgaWidth < ttyCellCount) :
    t.cells (i - k * vgaWidth) = p.get i := by
  have hcell := h.cells (i / vgaWidth - k) (i % vgaWidth)
    (by simp only [vgaWidth] at *; omega)
    (by simp only [vgaWidth, vgaHeight, ttyCellCount] at *; omega)
    (by simp only [vgaWidth]; omega) (by simp only [vgaWidth]; omega)
  have hindex : (i / vgaWidth - k) * vgaWidth + i % vgaWidth = i - k * vgaWidth := by
    simp only [vgaWidth]
    omega
  rw [hindex, add_sub_cancel] at hcell
  exact hcell

theorem line_eq {t : Terminal} {text : List UInt8} (hpos : t.linePos = 0)
    (htext : lineText t = text) (i : ℕ) (hi : i < text.length) : t.line i = text[i] := by
  subst htext
  have hget := getElem_slice (fun i : ℕ => t.line i) t.linePos.toNat
    (t.lineFill - t.linePos).toNat i hi
  have hindex : t.linePos.toNat + i = i := by omega
  exact (hget.trans (congrArg (fun j : ℕ => t.line j) hindex)).symm

/-- **The echo of a line.** `tty_read` begins a line with the cursor anywhere on
    the screen, and printed and erased keys follow, with no other writer. Then
    the line is on the screen from where it began, moved up by the rows scrolled,
    to the cursor, and the cursor is `line_fill` cells on, exactly when no
    character was erased with the cursor in column 0. -/
theorem echo_matches_line_iff {s : Console} (hready : s.ttyReady = true) {id : ℤ}
    (hid : ttyValid id) (hin : (s.ttys id).InRange) (hfill : (s.ttys id).lineFill = 0)
    (hpos : (s.ttys id).linePos = 0) (keys : List UInt8)
    (hkeys : ∀ c ∈ keys, keyKind c = .print ∨ keyKind c = .erase) :
    ∃ e, keys.foldlM (Echo.key id) ⟨s, 0⟩ = some e ∧
      (EchoMatches (s.ttys id) (e.console.ttys id) e.scrolled ↔
        ErasesInRow (s.ttys id).curX keys) := by
  obtain ⟨e, p, he, hstate, hshows, hahead, hscrolled⟩ :=
    Echoes.keys hready hid hin hfill hpos keys hkeys
  have hlen : (e.console.ttys id).lineFill = (edit keys).current.length := by
    have hle := hstate.lineOk.le
    rw [← hstate.text, length_lineText, hstate.linePos]
    rw [hstate.linePos] at hle
    omega
  have hindex : p.index = e.scrolled * vgaWidth +
      ((e.console.ttys id).curY * vgaWidth + (e.console.ttys id).curX) := by
    rw [Paper.index, hstate.window.row, hstate.window.col]
    ring
  have hstart : (s.ttys id).curY * vgaWidth + (s.ttys id).curX = (s.ttys id).sheet.index := rfl
  refine ⟨e, he, fun hmatch => ?_, fun hrow => ?_⟩
  · -- the cursor never comes back to the end of the line
    by_contra hrow
    have hlt := (hahead hrow).index
    have hcursor := hmatch.cursor
    rw [hlen, hstart] at hcursor
    omega
  · have h := hshows hrow
    have hshow := h.index
    have hup := hscrolled hrow
    refine ⟨by rw [hstart]; omega, by rw [hlen, hstart]; omega, fun i h0 h1 => ?_⟩
    obtain ⟨n, rfl⟩ := Int.eq_ofNat_of_zero_le h0
    have hn : n < (edit keys).current.length := by omega
    have hbottom : (s.ttys id).sheet.index + n - e.scrolled * vgaWidth < ttyCellCount := by
      have h2 := hstate.inRange.right
      have h3 := hstate.inRange.bottom
      simp only [vgaWidth, vgaHeight, ttyCellCount] at *
      omega
    have hcell := hstate.window.get (i := (s.ttys id).sheet.index + n) (by omega) hbottom
    have hprint := (edit_ok keys).current _ (List.getElem_mem hn)
    rw [hstart, show (s.ttys id).sheet.index - e.scrolled * vgaWidth + n =
      (s.ttys id).sheet.index + n - e.scrolled * vgaWidth by ring, hcell, h.cells n hn,
      line_eq hstate.linePos hstate.text n hn, charCell_ascii (print_lt hprint)]

/-- Two keys and a backspace in the first row. -/
theorem echo_matches_line_two_keys :
    ∃ e, ([0x61, 0x62, 0x08] : List UInt8).foldlM (Echo.key 0) ⟨bootConsole, 0⟩ = some e ∧
      EchoMatches (bootConsole.ttys 0) (e.console.ttys 0) e.scrolled := by
  have hin : (bootConsole.ttys 0).InRange := ⟨by decide, by decide, by decide, by decide⟩
  obtain ⟨e, he, hiff⟩ := echo_matches_line_iff (s := bootConsole) rfl (show ttyValid 0 by decide)
    hin rfl rfl [0x61, 0x62, 0x08] (by decide +kernel)
  have hnone : ErasesInRow (bootConsole.ttys 0).curX [] := fun pre c hpre => by
    have := List.prefix_nil.mp hpre
    simp at this
  have hrow : ErasesInRow (bootConsole.ttys 0).curX [0x61, 0x62, 0x08] := by
    refine (erasesInRow_snoc _ [0x61, 0x62] 0x08).mpr ⟨?_, by decide⟩
    refine (erasesInRow_snoc _ [0x61] 0x62).mpr ⟨?_, by decide⟩
    exact (erasesInRow_snoc _ [] 0x61).mpr ⟨hnone, by decide⟩
  exact ⟨e, he, hiff.mpr hrow⟩

/-- The line begins in the last column: after one key and a backspace it is empty,
    but the cursor is at the beginning of the next row. -/
theorem erase_over_the_edge :
    ∃ s e, (List.replicate 79 0x20).foldlM (fun s c => ttyWrite s 0 c) bootConsole = some s ∧
      ([0x61, 0x08] : List UInt8).foldlM (Echo.key 0) ⟨s, 0⟩ = some e ∧
      ((s.ttys 0).curX, (s.ttys 0).curY) = (79, 0) ∧ (e.console.ttys 0).lineFill = 0 ∧
      ((e.console.ttys 0).curX, (e.console.ttys 0).curY) = (0, 1) ∧ e.scrolled = 0 ∧
      ¬ EchoMatches (s.ttys 0) (e.console.ttys 0) e.scrolled := by
  have hobs : ((List.replicate 79 0x20).foldlM (fun s c => ttyWrite s 0 c) bootConsole).bind
      (fun s => (([0x61, 0x08] : List UInt8).foldlM (Echo.key 0) ⟨s, 0⟩).map fun e =>
        ((s.ttys 0).curX, (s.ttys 0).curY, (e.console.ttys 0).lineFill, (e.console.ttys 0).curX,
          (e.console.ttys 0).curY, e.scrolled)) = some (79, 0, 0, 0, 1, 0) := by decide +kernel
  obtain ⟨s, hs, hrest⟩ := Option.bind_eq_some_iff.mp hobs
  obtain ⟨e, he, hseen⟩ := Option.map_eq_some_iff.mp hrest
  simp only [Prod.mk.injEq] at hseen
  obtain ⟨hx0, hy0, hfill, hx, hy, hscrolled⟩ := hseen
  refine ⟨s, e, hs, he, by rw [hx0, hy0], hfill, by rw [hx, hy], hscrolled, fun hmatch => ?_⟩
  have hcursor := hmatch.cursor
  rw [hx0, hy0, hfill, hx, hy, hscrolled] at hcursor
  exact absurd hcursor (by decide)

end Mboot.Tty
