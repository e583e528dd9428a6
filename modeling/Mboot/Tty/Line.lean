import Mboot.Tty.Input
import Mboot.Tty.Scroll

/-!
# The line of a terminal

Model of the two parts of `tty_read` (tty.c lines 242–293): a round of the loop
that collects a line, and the copy out of a line that is complete.

The keys and the line share `tty_t` with the screen, and `tty_clear` resets all
of it. `tty_init` calls it on a new terminal, and `tty_write` on a form feed.

* `Terminal.write_input`: no other byte touches the keys or the line.
* `output_keeps_input_iff`: what a write of any bytes leaves of them, for every
  terminal.
* `form_feed_drops_a_key`: a key typed ahead is lost to a form feed.
-/

namespace Mboot.Tty

open Common

/-! ## `tty_read` -/

/-- `TTY_LINE_SIZE` (tty.c line 10). -/
abbrev ttyLineSize : ℤ := 256

/-- `tty->line[tty->line_fill++] = c`. -/
def Terminal.pushLine (t : Terminal) (c : UInt8) : Terminal :=
  { t with line := Function.update t.line t.lineFill c, lineFill := t.lineFill + 1 }

/-- What a round of the loop in `tty_read` does. -/
structure EditRound where
  terminal : Terminal
  /-- the bytes the round then passes to `tty_write`, one by one -/
  echo : List UInt8
  /-- the round leaves the loop -/
  last : Bool

/-- A round of the loop in `tty_read` for the key `c` (lines 268–288). In every
    branch the line is changed before the echo. `char` is signed, so `c >= ' '`
    fails from `0x80` on. -/
def ttyEditKey (t : Terminal) (c : UInt8) : EditRound :=
  let c := if c = 0x0D then 0x0A else c
  if c = 0x08 ∨ c = 0x7F then
    if t.lineFill > 0 then ⟨{ t with lineFill := t.lineFill - 1 }, [0x08, 0x20, 0x08], false⟩
    else ⟨t, [], false⟩
  else if c = 0x0A then
    ⟨if t.lineFill < ttyLineSize then t.pushLine 0x0A else t, [0x0D, 0x0A], true⟩
  else if 0x20 ≤ c ∧ c < 0x7F then
    if t.lineFill < ttyLineSize - 1 then ⟨t.pushLine c, [c], false⟩ else ⟨t, [], false⟩
  else ⟨t, [], false⟩

/-- The copy out of a line that is complete (lines 255–261): the bytes and the
    terminal. `tty_read` returns their number. -/
def ttyTakeLine (t : Terminal) (size : ℕ) : List UInt8 × Terminal :=
  let left := (t.lineFill - t.linePos).toNat
  let take := if left < size then left else size
  ((List.range take).map fun i => t.line (t.linePos + (i : ℕ)),
    { t with linePos := t.linePos + take })

/-! ## The keys and the line -/

/-- `t'` has the keys and the line of `t`. -/
structure SameInput (t t' : Terminal) : Prop where
  input : t'.input = t.input
  inputHead : t'.inputHead = t.inputHead
  inputTail : t'.inputTail = t.inputTail
  line : t'.line = t.line
  lineFill : t'.lineFill = t.lineFill
  linePos : t'.linePos = t.linePos

namespace SameInput

variable {t t' t'' : Terminal}

theorem refl (t : Terminal) : SameInput t t := ⟨rfl, rfl, rfl, rfl, rfl, rfl⟩

theorem trans (h : SameInput t t') (h' : SameInput t' t'') : SameInput t t'' :=
  ⟨h'.input.trans h.input, h'.inputHead.trans h.inputHead, h'.inputTail.trans h.inputTail,
    h'.line.trans h.line, h'.lineFill.trans h.lineFill, h'.linePos.trans h.linePos⟩

theorem symm (h : SameInput t t') : SameInput t' t :=
  ⟨h.input.symm, h.inputHead.symm, h.inputTail.symm, h.line.symm, h.lineFill.symm,
    h.linePos.symm⟩

theorem queue (h : SameInput t t') : inputQueue t' = inputQueue t := by
  unfold inputQueue inputCount
  rw [h.input, h.inputHead, h.inputTail]

/-- The screen of a terminal is apart from its keys and its line. -/
theorem screen (t : Terminal) (cells : ℤ → UInt16) (x y : ℤ) :
    SameInput t { t with cells := cells, curX := x, curY := y } := ⟨rfl, rfl, rfl, rfl, rfl, rfl⟩

/-- `tty_clear` resets the indices and leaves the two arrays. -/
theorem clear (h : SameInput t t') : SameInput (ttyClear t) (ttyClear t') :=
  ⟨h.input, rfl, rfl, h.line, rfl, rfl⟩

/-- Clearing twice. -/
theorem clear_clear (t : Terminal) : SameInput (ttyClear t) (ttyClear (ttyClear t)) :=
  ⟨rfl, rfl, rfl, rfl, rfl, rfl⟩

end SameInput

/-- No key is pending, no line is begun or left over, and the indices are at the
    start of their arrays. -/
def Terminal.InputReset (t : Terminal) : Prop :=
  t.inputHead = 0 ∧ t.inputTail = 0 ∧ t.lineFill = 0 ∧ t.linePos = 0

/-- What `tty_clear` does to the keys and the line goes unnoticed only if they
    are reset already. -/
theorem sameInput_ttyClear_iff (t : Terminal) : SameInput t (ttyClear t) ↔ t.InputReset := by
  constructor
  · intro h
    exact ⟨h.inputHead.symm, h.inputTail.symm, h.lineFill.symm, h.linePos.symm⟩
  · intro h
    obtain ⟨hhead, htail, hfill, hpos⟩ := h
    exact ⟨rfl, hhead.symm, htail.symm, rfl, hfill.symm, hpos.symm⟩

namespace Terminal

variable {t t' : Terminal} {c : UInt8}

theorem put_input {x y : ℤ} (h : t.put x y c = some t') : SameInput t t' := by
  unfold put at h
  split_ifs at h
  cases h
  exact SameInput.screen t ..

theorem control_input (h : t.control c = some t') :
    SameInput (if c = 0x0C then ttyClear t else t) t' := by
  by_cases hff : c = 0x0C
  · subst hff
    cases h
    exact SameInput.refl _
  · rw [if_neg hff]
    unfold control at h
    split_ifs at h
    · cases h
      exact SameInput.screen t ..
    · cases h
      exact SameInput.screen t ..
    · exact (SameInput.screen t ..).trans (put_input h)
    · cases h
      exact SameInput.refl t
    · cases h
      exact SameInput.screen t ..
    · obtain ⟨t1, ht1, rfl⟩ := Option.map_eq_some_iff.mp h
      exact (put_input ht1).trans (SameInput.screen t1 ..)

theorem wrap_scroll_input (t : Terminal) : SameInput t t.wrap.scroll := by
  have hwrap : SameInput t t.wrap := by
    unfold wrap
    split_ifs
    · exact SameInput.screen t ..
    · exact SameInput.refl t
  have hscroll : SameInput t.wrap t.wrap.scroll := by
    unfold scroll
    split_ifs
    · exact SameInput.screen t.wrap ..
    · exact SameInput.refl t.wrap
  exact hwrap.trans hscroll

/-- Of all bytes only a form feed touches the keys and the line. -/
theorem write_input (h : t.write c = some t') :
    SameInput (if c = 0x0C then ttyClear t else t) t' := by
  obtain ⟨t1, ht1, rfl⟩ := Option.map_eq_some_iff.mp h
  exact (control_input ht1).trans (wrap_scroll_input t1)

end Terminal

/-! ## `tty_write` and the other terminals -/

section

variable {s s' : Console} {id : ℤ} {c : UInt8}

theorem put_of_ttyPutCell {x y : ℤ} (h : ttyPutCell s id x y c = some s') (t : Terminal) :
    ∃ t', t.put x y c = some t' := by
  by_cases hrange : 0 ≤ y * vgaWidth + x ∧ y * vgaWidth + x < ttyCellCount
  · exact ⟨_, if_pos hrange⟩
  · rw [ttyPutCell, if_neg hrange] at h
    cases h

/-- A `switch` that stores inside `cells` is the one of the terminal. -/
theorem control_of_ttyControl (h : ttyControl s id c = some s') :
    ∃ t, (s.ttys id).control c = some t := by
  unfold ttyControl at h
  dsimp only at h
  unfold Terminal.control
  split_ifs at h ⊢
  · exact ⟨_, rfl⟩
  · exact ⟨_, rfl⟩
  · exact put_of_ttyPutCell h _
  · exact ⟨_, rfl⟩
  · exact ⟨_, rfl⟩
  · exact ⟨_, rfl⟩
  · exact ⟨_, rfl⟩
  · rw [Option.bind_eq_bind, Option.bind_eq_some_iff] at h
    obtain ⟨s1, hs1, -⟩ := h
    obtain ⟨t, ht⟩ := put_of_ttyPutCell hs1 (s.ttys id)
    exact ⟨_, by rw [ht, Option.map_some]⟩

/-- The converse of `ttyWrite_spec`. -/
theorem updates_of_ttyWrite (hready : s.ttyReady = true) (hid : ttyValid id)
    (h : ttyWrite s id c = some s') : ∃ t, (s.ttys id).write c = some t ∧ Updates s id t s' := by
  have hcontrol := h
  rw [ttyWrite, if_neg (by simp [hready, hid])] at hcontrol
  obtain ⟨s1, hs1, -⟩ := Option.map_eq_some_iff.mp hcontrol
  obtain ⟨t1, ht1⟩ := control_of_ttyControl hs1
  have hwrite : (s.ttys id).write c = some t1.wrap.scroll := by
    rw [Terminal.write, ht1, Option.map_some]
  obtain ⟨s2, hs2, hup, -⟩ := ttyWrite_spec hready hid hwrite
  cases hs2.symm.trans h
  exact ⟨_, hwrite, hup⟩

/-- One byte of `tty_write` and the keys and lines of all terminals. -/
theorem ttyWrite_input (hready : s.ttyReady = true) (hid : ttyValid id)
    (h : ttyWrite s id c = some s') :
    s'.ttyReady = true ∧ s'.activeTty = s.activeTty ∧
      SameInput (if c = 0x0C then ttyClear (s.ttys id) else s.ttys id) (s'.ttys id) ∧
      ∀ j, j ≠ id → s'.ttys j = s.ttys j := by
  obtain ⟨t, ht, hup⟩ := updates_of_ttyWrite hready hid h
  refine ⟨hup.ready.trans hready, hup.active, ?_, fun j hj => ?_⟩
  · rw [hup.get]
    exact Terminal.write_input ht
  · rw [hup.ttys, Function.update_of_ne hj]

/-- A sequence of bytes. One form feed among them is enough, and a second one
    changes nothing. -/
theorem writeAll_input {buf : List UInt8} (hready : s.ttyReady = true) (hid : ttyValid id)
    (h : buf.foldlM (fun s c => ttyWrite s id c) s = some s') :
    SameInput (if 0x0C ∈ buf then ttyClear (s.ttys id) else s.ttys id) (s'.ttys id) ∧
      ∀ j, j ≠ id → s'.ttys j = s.ttys j := by
  induction buf generalizing s with
  | nil =>
    cases h
    exact ⟨SameInput.refl _, fun _ _ => rfl⟩
  | cons c buf ih =>
    rw [List.foldlM_cons, Option.bind_eq_bind, Option.bind_eq_some_iff] at h
    obtain ⟨s1, hs1, hrest⟩ := h
    obtain ⟨hready1, -, hinput1, hother1⟩ := ttyWrite_input hready hid hs1
    obtain ⟨hinput, hother⟩ := ih hready1 hrest
    refine ⟨?_, fun j hj => (hother j hj).trans (hother1 j hj)⟩
    by_cases hc : c = 0x0C
    · rw [if_pos hc] at hinput1
      rw [if_pos (List.mem_cons.mpr (Or.inl hc.symm))]
      split_ifs at hinput with hmem
      · exact ((SameInput.clear_clear _).trans hinput1.clear).trans hinput
      · exact hinput1.trans hinput
    · rw [if_neg hc] at hinput1
      have hiff : 0x0C ∈ c :: buf ↔ 0x0C ∈ buf := by
        rw [List.mem_cons, or_iff_right (Ne.symm hc)]
      simp only [hiff]
      split_ifs at hinput ⊢
      · exact hinput1.clear.trans hinput
      · exact hinput1.trans hinput

end

/-! ## Before `tty_init` -/

/-- What `tty_early_write` has no access to. -/
def Console.terminals (s : Console) : (ℤ → Terminal) × Bool := (s.ttys, s.ttyReady)

/-- A loop whose rounds leave the terminals alone. -/
theorem foldl_terminals {α : Type} {f : Console → α → Console}
    (hf : ∀ s a, (f s a).terminals = s.terminals) (as : List α) (s : Console) :
    (as.foldl f s).terminals = s.terminals := by
  induction as generalizing s with
  | nil => rfl
  | cons a as ih => rw [List.foldl_cons, ih, hf]

theorem earlyScroll_terminals (s : Console) : (earlyScroll s).terminals = s.terminals := by
  have hlast : ∀ r : Console, { r with earlyY := vgaHeight - 1 }.terminals = r.terminals :=
    fun _ => rfl
  unfold earlyScroll
  dsimp only
  rw [hlast,
    foldl_terminals (f := fun s (x : ℕ) => vgaClearChar s x (vgaHeight - 1)) fun _ _ => rfl]
  apply foldl_terminals
  intro s y
  apply foldl_terminals
  intro s x
  rfl

/-- Output that finds no terminal goes to the display. -/
theorem ttyEarlyWrite_terminals (s : Console) (c : UInt8) :
    (ttyEarlyWrite s c).terminals = s.terminals := by
  have hwrap : ∀ r : Console, (if r.earlyX ≥ vgaWidth then
      { r with earlyX := 0, earlyY := r.earlyY + 1 } else r).terminals = r.terminals := by
    intro r
    split_ifs <;> rfl
  have hscroll : ∀ r : Console,
      (if r.earlyY ≥ vgaHeight then earlyScroll r else r).terminals = r.terminals := by
    intro r
    split_ifs
    · exact earlyScroll_terminals r
    · rfl
  have hmove : ∀ r : Console, (vgaMoveCursor r r.earlyX r.earlyY).terminals = r.terminals :=
    fun _ => rfl
  unfold ttyEarlyWrite
  dsimp only
  rw [hmove, hscroll, hwrap]
  split_ifs <;> rfl

theorem writeAll_early {s : Console} (hready : s.ttyReady = false) (id : ℤ) (buf : List UInt8) :
    ∃ s', buf.foldlM (fun s c => ttyWrite s id c) s = some s' ∧ s'.terminals = s.terminals := by
  refine exists_foldlM (P := fun r : Console => r.terminals = s.terminals) (fun c _ r hr => ?_) rfl
  have hnot : r.ttyReady = false := (congrArg Prod.snd hr).trans hready
  refine ⟨ttyEarlyWrite r c, ?_, (ttyEarlyWrite_terminals r c).trans hr⟩
  rw [ttyWrite, if_pos (Or.inl hnot)]

/-! ## Main theorem -/

/-- A cursor on the screen: all stores of a write are inside `cells`. -/
theorem exists_writeAll {s : Console} {id : ℤ}
    (hin : s.ttyReady = true → ttyValid id → (s.ttys id).InRange) (hid : ttyValid id)
    (buf : List UInt8) : ∃ s', buf.foldlM (fun s c => ttyWrite s id c) s = some s' := by
  cases hready : s.ttyReady with
  | false =>
    obtain ⟨s', hs', -⟩ := writeAll_early hready id buf
    exact ⟨s', hs'⟩
  | true =>
    have hstep : ∀ c ∈ buf, ∀ r : Console, r.ttyReady = true ∧ (r.ttys id).InRange →
        ∃ r', ttyWrite r id c = some r' ∧ r'.ttyReady = true ∧ (r'.ttys id).InRange := by
      rintro c - r ⟨hr, hrange⟩
      obtain ⟨t, ht, hrange'⟩ := Terminal.write_inRange hrange c
      obtain ⟨r', hr', hup, -⟩ := ttyWrite_spec hr hid ht
      exact ⟨r', hr', hup.ready.trans hr, by rw [hup.get]; exact hrange'⟩
    obtain ⟨s', hs', -⟩ := exists_foldlM hstep ⟨hready, hin hready hid⟩
    exact ⟨s', hs'⟩

/-- **Output and the input of the terminals.** `tty_write_buf` returns for every
    buffer if the cursor of the terminal is on its screen. Whenever it returns,
    the pending keys and the line of every terminal are unchanged exactly when
    the bytes have no form feed, or the terminal written to has nothing pending
    and nothing of a line, with all four indices at zero. Before `tty_init`, and
    for a number that is no terminal, nothing is touched. -/
theorem output_keeps_input_iff (s : Console) (id : ℤ) (buf : List UInt8) :
    ((s.ttyReady = true → ttyValid id → (s.ttys id).InRange) →
      ∃ ret s', ttyWriteBuf s id buf = some (ret, s')) ∧
    ∀ ret s', ttyWriteBuf s id buf = some (ret, s') →
      ((∀ j, SameInput (s.ttys j) (s'.ttys j)) ↔
        (s.ttyReady = true → ttyValid id → 0x0C ∈ buf → (s.ttys id).InputReset)) := by
  by_cases hid : ttyValid id
  · refine ⟨fun hin => ?_, fun ret s' h => ?_⟩
    · obtain ⟨s', hs'⟩ := exists_writeAll hin hid buf
      exact ⟨_, s', by rw [ttyWriteBuf, if_neg (not_not.mpr hid), hs', Option.map_some]⟩
    · rw [ttyWriteBuf, if_neg (not_not.mpr hid)] at h
      obtain ⟨s1, hs1, heq⟩ := Option.map_eq_some_iff.mp h
      obtain ⟨-, rfl⟩ := Prod.mk.inj heq
      cases hready : s.ttyReady with
      | false =>
        obtain ⟨s2, hs2, hsame⟩ := writeAll_early hready id buf
        cases hs2.symm.trans hs1
        have httys : s1.ttys = s.ttys := congrArg Prod.fst hsame
        rw [httys]
        exact iff_of_true (fun j => SameInput.refl _) fun h => by cases h
      | true =>
        obtain ⟨hinput, hother⟩ := writeAll_input hready hid hs1
        by_cases hff : 0x0C ∈ buf
        · rw [if_pos hff] at hinput
          simp only [hid, hff, forall_const]
          rw [← sameInput_ttyClear_iff]
          constructor
          · exact fun hall => (hall id).trans hinput.symm
          · intro hclear j
            by_cases hj : j = id
            · rw [hj]
              exact hclear.trans hinput
            · rw [hother j hj]
              exact SameInput.refl _
        · rw [if_neg hff] at hinput
          refine iff_of_true (fun j => ?_) fun _ _ hmem => absurd hmem hff
          by_cases hj : j = id
          · rw [hj]
            exact hinput
          · rw [hother j hj]
            exact SameInput.refl _
  · have hret : ttyWriteBuf s id buf = some (-1, s) := by rw [ttyWriteBuf, if_pos hid]
    refine ⟨fun _ => ⟨-1, s, hret⟩, fun ret s' h => ?_⟩
    rw [hret] at h
    cases h
    exact iff_of_true (fun j => SameInput.refl _) fun _ h => absurd h hid

/-- The key `a` has been typed at terminal 0, and nobody has read it. -/
def typedAhead : Console := bootConsole.setTty 0 (ttyPushInput (bootConsole.ttys 0) 0x61)

/-- Two characters written to that terminal leave the key. -/
theorem output_keeps_input_two_bytes :
    ∃ ret s', ttyWriteBuf typedAhead 0 [0x68, 0x69] = some (ret, s') ∧
      inputQueue (s'.ttys 0) = [0x61] := by
  obtain ⟨hreturns, hkeeps⟩ := output_keeps_input_iff typedAhead 0 [0x68, 0x69]
  have hin : (typedAhead.ttys 0).InRange := ⟨by decide, by decide, by decide, by decide⟩
  obtain ⟨ret, s', hs'⟩ := hreturns fun _ _ => hin
  have hsame := (hkeeps ret s' hs').mpr (fun _ _ hff => absurd hff (by decide)) 0
  refine ⟨ret, s', hs', ?_⟩
  rw [hsame.queue]
  decide +kernel

/-- A form feed discards it. -/
theorem form_feed_drops_a_key :
    inputQueue (typedAhead.ttys 0) = [0x61] ∧
      ∃ s', ttyWriteBuf typedAhead 0 [0x0C] = some (1, s') ∧ inputQueue (s'.ttys 0) = [] ∧
        ¬ SameInput (typedAhead.ttys 0) (s'.ttys 0) := by
  have hbefore : inputQueue (typedAhead.ttys 0) = [0x61] := by decide +kernel
  have hobs : (ttyWriteBuf typedAhead 0 [0x0C]).map
      (fun r => (r.1, inputQueue (r.2.ttys 0))) = some (1, []) := by decide +kernel
  obtain ⟨⟨ret, s'⟩, hs', hqueue⟩ := Option.map_eq_some_iff.mp hobs
  obtain ⟨rfl, hqueue⟩ := Prod.mk.inj hqueue
  refine ⟨hbefore, s', hs', hqueue, fun hsame => ?_⟩
  rw [hsame.queue, hbefore] at hqueue
  cases hqueue

end Mboot.Tty
