import Mboot.Common.Slice
import Mboot.Tty.Line

/-!
# The line discipline

A task reads lines from a terminal while keys arrive and other tasks write.
`tty_read` pops keys from the ring, edits the line in place, echoes each key
with calls of `tty_write`, and hands the completed line out in pieces.

* `edit`: what the keys are to be read as, one key after the other.
* `Session`: the reader between any two of its keys and echoed bytes, with keys
  and writes of other tasks in between.
* `line_discipline`: the bytes returned so far are a prefix of the lines of
  `edit`, and no result has bytes of two lines.
* `read_returns`: once a newline is pending, the call returns.
-/

namespace Mboot.Tty

open Common

/-! ## Specification -/

/-- What a key does to the line. -/
inductive KeyKind
  | newline
  | erase
  | print
  | other
  deriving DecidableEq

/-- CR and LF end the line, BS and DEL erase, and 0x20 to 0x7E are printed. -/
def keyKind (c : UInt8) : KeyKind :=
  if c = 0x0D ∨ c = 0x0A then .newline
  else if c = 0x08 ∨ c = 0x7F then .erase
  else if 0x20 ≤ c ∧ c ≤ 0x7E then .print
  else .other

/-- The completed lines, each with its LF, and the unfinished one. -/
structure Edited where
  lines : List (List UInt8)
  current : List UInt8

/-- One more key. -/
def Edited.key (e : Edited) (c : UInt8) : Edited :=
  match keyKind c with
  | .newline => ⟨e.lines ++ [e.current ++ [0x0A]], []⟩
  | .erase => { e with current := e.current.dropLast }
  | .print => if e.current.length < 255 then { e with current := e.current ++ [c] } else e
  | .other => e

/-- The lines the keys spell. -/
def edit (keys : List UInt8) : Edited := keys.foldl Edited.key ⟨[], []⟩

theorem edit_snoc (keys : List UInt8) (c : UInt8) : edit (keys ++ [c]) = (edit keys).key c := by
  rw [edit, List.foldl_append]
  rfl

/-- A line and its LF. -/
def IsLine (l : List UInt8) : Prop :=
  ∃ body, l = body ++ [0x0A] ∧ 0x0A ∉ body ∧ body.length ≤ 255

/-- Every completed line ends in LF and has no other; the unfinished line is
    printed characters. -/
structure Edited.Ok (e : Edited) : Prop where
  lines : ∀ l ∈ e.lines, IsLine l
  current : ∀ c ∈ e.current, keyKind c = .print
  length : e.current.length ≤ 255

theorem print_ne_newline {c : UInt8} (h : keyKind c = .print) : c ≠ 0x0A := by
  rintro rfl
  cases h

theorem Edited.Ok.key {e : Edited} (h : e.Ok) (c : UInt8) : (e.key c).Ok := by
  unfold Edited.key
  cases hk : keyKind c with
  | newline =>
    refine ⟨fun l hl => ?_, List.forall_mem_nil _, Nat.zero_le _⟩
    rcases List.mem_append.mp hl with hl | hl
    · exact h.lines l hl
    · have hno : 0x0A ∉ e.current := fun hmem => print_ne_newline (h.current _ hmem) rfl
      exact ⟨e.current, List.mem_singleton.mp hl, hno, h.length⟩
  | erase =>
    refine ⟨h.lines, fun d hd => h.current d (List.mem_of_mem_dropLast hd), ?_⟩
    have hlen := h.length
    simp only [List.length_dropLast]
    omega
  | print =>
    dsimp only
    split_ifs with hroom
    · refine ⟨h.lines, fun d hd => ?_, ?_⟩
      · rcases List.mem_append.mp hd with hd | hd
        · exact h.current d hd
        · rw [List.mem_singleton.mp hd]
          exact hk
      · simp only [List.length_append, List.length_singleton]
        omega
    · exact h
  | other => exact h

theorem edit_ok (keys : List UInt8) : (edit keys).Ok := by
  induction keys using List.reverseRecOn with
  | nil => exact ⟨List.forall_mem_nil _, List.forall_mem_nil _, Nat.zero_le _⟩
  | append_singleton keys c ih =>
    rw [edit_snoc]
    exact ih.key c

theorem Edited.lines_mono_key (e : Edited) (c : UInt8) : e.lines <+: (e.key c).lines := by
  unfold Edited.key
  cases keyKind c with
  | newline => exact List.prefix_append _ _
  | erase => exact List.prefix_rfl
  | print =>
    dsimp only
    split_ifs <;> exact List.prefix_rfl
  | other => exact List.prefix_rfl

/-- More keys only add lines. -/
theorem edit_lines_mono (keys more : List UInt8) :
    (edit keys).lines <+: (edit (keys ++ more)).lines := by
  induction more using List.reverseRecOn with
  | nil => rw [List.append_nil]
  | append_singleton more c ih =>
    rw [← List.append_assoc, edit_snoc]
    exact ih.trans (Edited.lines_mono_key _ c)

/-! ## One key -/

/-- The branches of a round, by the kind of the key. -/
theorem ttyEditKey_eq (t : Terminal) (c : UInt8) : ttyEditKey t c =
    match keyKind c with
    | .newline => ⟨if t.lineFill < ttyLineSize then t.pushLine 0x0A else t, [0x0D, 0x0A], true⟩
    | .erase =>
      if t.lineFill > 0 then ⟨{ t with lineFill := t.lineFill - 1 }, [0x08, 0x20, 0x08], false⟩
      else ⟨t, [], false⟩
    | .print =>
      if t.lineFill < ttyLineSize - 1 then ⟨t.pushLine c, [c], false⟩ else ⟨t, [], false⟩
    | .other => ⟨t, [], false⟩ := by
  have hbelow : c < 0x7F ↔ c ≤ 0x7E := by
    rw [UInt8.lt_iff_toNat_lt, UInt8.le_iff_toNat_le]
    exact Nat.lt_succ_iff
  unfold ttyEditKey keyKind
  by_cases hcr : c = 0x0D
  · rw [if_pos hcr, if_pos (Or.inl hcr)]
    rfl
  · rw [if_neg hcr]
    simp only [hbelow]
    by_cases hlf : c = 0x0A
    · subst hlf
      rfl
    · rw [if_neg (not_or.mpr ⟨hcr, hlf⟩), if_neg hlf]
      split_ifs <;> rfl

/-- The bytes of the line that have not been returned. -/
def lineText (t : Terminal) : List UInt8 :=
  slice (fun i : ℕ => t.line i) t.linePos.toNat (t.lineFill - t.linePos).toNat

/-- The indices into the line are in order. -/
structure LineOk (t : Terminal) : Prop where
  pos : 0 ≤ t.linePos
  le : t.linePos ≤ t.lineFill

section

variable {t t' : Terminal} {c : UInt8}

theorem length_lineText (t : Terminal) :
    (lineText t).length = (t.lineFill - t.linePos).toNat := length_slice ..

theorem LineOk.pushLine (h : LineOk t) (c : UInt8) : LineOk (t.pushLine c) :=
  ⟨h.pos, by have := h.le; show t.linePos ≤ t.lineFill + 1; omega⟩

theorem lineText_pushLine (h : LineOk t) (c : UInt8) :
    lineText (t.pushLine c) = lineText t ++ [c] := by
  have h0 := h.pos
  have h1 := h.le
  have hlen : (t.lineFill + 1 - t.linePos).toNat = (t.lineFill - t.linePos).toNat + 1 := by omega
  have hlast : ((t.linePos.toNat + (t.lineFill - t.linePos).toNat : ℕ) : ℤ) = t.lineFill := by
    omega
  unfold lineText Terminal.pushLine
  dsimp only
  rw [hlen, slice_add]
  congr 1
  · apply slice_congr
    intro i hi
    apply Function.update_of_ne
    omega
  · simp only [slice, List.range_one, List.map_singleton, Nat.add_zero, hlast, Function.update_self]

theorem lineText_erase (t : Terminal) :
    lineText { t with lineFill := t.lineFill - 1 } = (lineText t).dropLast := by
  have hlen : (t.lineFill - 1 - t.linePos).toNat = (t.lineFill - t.linePos).toNat - 1 := by omega
  rw [List.dropLast_eq_take, length_lineText]
  unfold lineText
  dsimp only
  rw [hlen, take_slice, Nat.min_eq_left (Nat.sub_le ..)]

/-- A read takes the front of what is left of the line. -/
theorem ttyTakeLine_spec (h : LineOk t) (size : ℕ) :
    (ttyTakeLine t size).1 = (lineText t).take size ∧
      lineText (ttyTakeLine t size).2 = (lineText t).drop size ∧
      LineOk (ttyTakeLine t size).2 := by
  have h0 := h.pos
  have h1 := h.le
  have htake : (if (t.lineFill - t.linePos).toNat < size then (t.lineFill - t.linePos).toNat
      else size) = min size (t.lineFill - t.linePos).toNat := by
    split_ifs <;> omega
  unfold ttyTakeLine
  dsimp only
  rw [htake]
  refine ⟨?_, ?_, ⟨?_, ?_⟩⟩
  · unfold lineText
    rw [take_slice]
    apply List.map_congr_left
    intro i _
    congr 1
    omega
  · unfold lineText
    dsimp only
    rw [drop_slice]
    have hpos : (t.linePos + (min size (t.lineFill - t.linePos).toNat : ℕ)).toNat =
        t.linePos.toNat + min size (t.lineFill - t.linePos).toNat := by omega
    have hlen : (t.lineFill - (t.linePos + (min size (t.lineFill - t.linePos).toNat : ℕ))).toNat =
        (t.lineFill - t.linePos).toNat - size := by omega
    rw [hpos, hlen]
    by_cases hall : size ≤ (t.lineFill - t.linePos).toNat
    · rw [Nat.min_eq_left hall]
    · rw [Nat.sub_eq_zero_of_le (by omega)]
      rfl
  · show 0 ≤ t.linePos + (min size (t.lineFill - t.linePos).toNat : ℕ)
    omega
  · show t.linePos + (min size (t.lineFill - t.linePos).toNat : ℕ) ≤ t.lineFill
    omega

/-- A round edits the line as the specification does. The line of `tty_t` has
    room for 256 bytes, so the newline is always stored. -/
theorem ttyEditKey_text (h : LineOk t) (hpos : t.linePos = 0) (hlen : (lineText t).length ≤ 255)
    (c : UInt8) (lines : List (List UInt8)) :
    LineOk (ttyEditKey t c).terminal ∧ (ttyEditKey t c).terminal.linePos = 0 ∧
      (Edited.mk lines (lineText t)).key c =
        if (ttyEditKey t c).last then ⟨lines ++ [lineText (ttyEditKey t c).terminal], []⟩
        else ⟨lines, lineText (ttyEditKey t c).terminal⟩ := by
  have hfill : (lineText t).length = t.lineFill.toNat := by rw [length_lineText, hpos, sub_zero]
  have h0 : 0 ≤ t.lineFill := hpos ▸ h.le
  rw [ttyEditKey_eq]
  unfold Edited.key
  cases keyKind c with
  | newline =>
    dsimp only
    rw [if_pos (show t.lineFill < ttyLineSize by simp only [ttyLineSize]; omega),
      lineText_pushLine h]
    exact ⟨h.pushLine 0x0A, hpos, rfl⟩
  | erase =>
    dsimp only
    by_cases hsome : t.lineFill > 0
    · rw [if_pos hsome]
      dsimp only
      rw [lineText_erase]
      exact ⟨⟨h.pos, show t.linePos ≤ t.lineFill - 1 by omega⟩, hpos, rfl⟩
    · have hnil : lineText t = [] := List.length_eq_zero_iff.mp (by omega)
      rw [if_neg hsome, hnil]
      exact ⟨h, hpos, rfl⟩
  | print =>
    dsimp only
    by_cases hroom : t.lineFill < ttyLineSize - 1
    · rw [if_pos hroom, if_pos (by simp only [ttyLineSize] at hroom; omega)]
      dsimp only
      rw [lineText_pushLine h]
      exact ⟨h.pushLine c, hpos, rfl⟩
    · rw [if_neg hroom, if_neg (by simp only [ttyLineSize] at hroom; omega)]
      exact ⟨h, hpos, rfl⟩
  | other => exact ⟨h, hpos, rfl⟩

/-- A round changes nothing of a terminal but its line. -/
theorem ttyEditKey_line (t : Terminal) (c : UInt8) : ∃ line fill,
    (ttyEditKey t c).terminal = { t with line := line, lineFill := fill } := by
  rw [ttyEditKey_eq]
  cases keyKind c with
  | newline | erase | print =>
    dsimp only
    split_ifs
    · exact ⟨_, _, rfl⟩
    · exact ⟨_, _, rfl⟩
  | other => exact ⟨_, _, rfl⟩

theorem ttyEditKey_last (t : Terminal) (c : UInt8) :
    (ttyEditKey t c).last = decide (keyKind c = .newline) := by
  rw [ttyEditKey_eq]
  cases keyKind c with
  | newline => rfl
  | erase | print =>
    dsimp only
    split_ifs <;> rfl
  | other => rfl

theorem print_ne_formFeed (h : keyKind c = .print) : c ≠ 0x0C := by
  rintro rfl
  cases h

theorem print_lt (h : keyKind c = .print) : c < 0x80 := by
  unfold keyKind at h
  split_ifs at h with _ _ hprint
  exact UInt8.lt_of_le_of_lt hprint.2 (by decide)

/-- No round echoes a form feed. -/
theorem ttyEditKey_echo (t : Terminal) (c : UInt8) : 0x0C ∉ (ttyEditKey t c).echo := by
  rw [ttyEditKey_eq]
  cases hk : keyKind c with
  | newline => exact (by decide : (0x0C : UInt8) ∉ [0x0D, 0x0A])
  | erase =>
    dsimp only
    split_ifs
    · exact (by decide : (0x0C : UInt8) ∉ [0x08, 0x20, 0x08])
    · exact List.not_mem_nil
  | print =>
    dsimp only
    split_ifs
    · exact fun hmem => print_ne_formFeed hk (List.mem_singleton.mp hmem).symm
    · exact List.not_mem_nil
  | other => exact List.not_mem_nil

end

/-! ## The reader among keys and writers -/

/-- Where the reader is. -/
inductive Phase
  | outside
  /-- in `tty_pop_input`, for a call with this size -/
  | popping (size : ℕ)
  /-- in the round of a key, with these bytes still to be echoed -/
  | echoing (size : ℕ) (bytes : List UInt8) (last : Bool)

/-- A line is being collected. -/
def Phase.Collecting : Phase → Prop
  | .outside => False
  | .popping _ => True
  | .echoing _ _ last => last = false

/-- What is still to be echoed. -/
def Phase.bytes : Phase → List UInt8
  | .echoing _ bytes _ => bytes
  | _ => []

/-- The terminals, the reader of one of them, and the record. -/
structure Session where
  console : Console
  phase : Phase
  /-- the keys typed at the terminal -/
  keys : List UInt8
  /-- the keys the reader has popped -/
  popped : List UInt8
  /-- the results of the calls -/
  returned : List (List UInt8)

inductive SessionEvent
  | key (scancode ascii : UInt8)
  /-- a byte another task writes to a terminal -/
  | write (j : ℤ) (c : UInt8)
  /-- the reader calls `tty_read` -/
  | call (size : ℕ)
  /-- it pops a key and edits the line -/
  | pop
  /-- it echoes a byte, or is done with the key -/
  | echo

/-- `tty_read` up to its loop (lines 252–265). -/
def Session.enter (s : Session) (id : ℤ) (size : ℕ) : Session :=
  let t := s.console.ttys id
  if t.linePos < t.lineFill then
    let (bytes, t) := ttyTakeLine t size
    { s with
      console := s.console.setTty id t, phase := .outside, returned := s.returned ++ [bytes] }
  else
    { s with
      console := s.console.setTty id { t with lineFill := 0, linePos := 0 }
      phase := .popping size }

/-- One step of a session on terminal `id`; `none` when it is not possible. -/
def Session.step (id : ℤ) (s : Session) : SessionEvent → Option Session
  | .key scancode ascii =>
    some { s with
      console := s.console.key scancode ascii
      keys := if s.console.TypedAt id scancode ascii then s.keys ++ [ascii] else s.keys }
  | .write j c => (ttyWrite s.console j c).map fun d => { s with console := d }
  | .call size =>
    match s.phase with
    | .outside => some (s.enter id size)
    | _ => none
  | .pop =>
    match s.phase with
    | .popping size =>
      -- without input the reader sleeps
      if ttyHasInput (s.console.ttys id) then
        let (c, t) := ttyTakeInput (s.console.ttys id)
        let r := ttyEditKey t c
        some { s with
          console := s.console.setTty id r.terminal
          phase := .echoing size r.echo r.last
          popped := s.popped ++ [c] }
      else none
    | _ => none
  | .echo =>
    match s.phase with
    | .echoing size (c :: bytes) last =>
      (ttyWrite s.console id c).map fun d =>
        { s with console := d, phase := .echoing size bytes last }
    | .echoing size [] false => some { s with phase := .popping size }
    -- the call at the end of `tty_read` (line 292)
    | .echoing size [] true => some (s.enter id size)
    | _ => none

/-- The terminals are as given, and nothing has been typed or read. -/
def Session.start (c : Console) : Session := ⟨c, .outside, [], [], []⟩

/-- The keys that have been typed and not been popped. -/
def Session.pending (s : Session) : ℕ := s.keys.length - s.popped.length

/-- No form feed is written to the terminal, and no key is typed at it while 255
    are pending. -/
def NoLoss (id : ℤ) (s : Session) : SessionEvent → Prop
  | .key scancode ascii => s.console.TypedAt id scancode ascii → s.pending < 255
  | .write j c => j = id → c ≠ 0x0C
  | _ => True

instance (id : ℤ) (s : Session) : DecidablePred (NoLoss id s)
  | .key scancode ascii =>
    inferInstanceAs (Decidable (s.console.TypedAt id scancode ascii → s.pending < 255))
  | .write j c => inferInstanceAs (Decidable (j = id → c ≠ 0x0C))
  | .call _ | .pop | .echo => .isTrue trivial

/-! ## One step -/

/-- The keys are popped in order, the line is the one the popped keys spell, and
    what has been returned and is left of the line are its lines. -/
structure Session.Ok (id : ℤ) (s : Session) : Prop where
  ready : s.console.ttyReady = true
  inRange : (s.console.ttys id).InRange
  queueOk : QueueOk (s.console.ttys id)
  queue : s.popped ++ inputQueue (s.console.ttys id) = s.keys
  lineOk : LineOk (s.console.ttys id)
  echo : 0x0C ∉ s.phase.bytes
  results : ∀ r ∈ s.returned, 0x0A ∉ r.dropLast
  collecting : s.phase.Collecting → (s.console.ttys id).linePos = 0 ∧
    lineText (s.console.ttys id) = (edit s.popped).current ∧
    s.returned.flatten = (edit s.popped).lines.flatten
  settled : ¬ s.phase.Collecting → (edit s.popped).current = [] ∧
    s.returned.flatten ++ lineText (s.console.ttys id) = (edit s.popped).lines.flatten ∧
    0x0A ∉ (lineText (s.console.ttys id)).dropLast

section

variable {id : ℤ} {s s' : Session} {t : Terminal} {c : UInt8}

/-- Only the cursor matters for the range, and only the indices for the queue and
    the line. -/
theorem Terminal.InRange.of_eq {t t' : Terminal} (h : t.InRange) (hx : t'.curX = t.curX)
    (hy : t'.curY = t.curY) : t'.InRange :=
  ⟨hx ▸ h.left, hx ▸ h.right, hy ▸ h.top, hy ▸ h.bottom⟩

theorem QueueOk.of_eq {t t' : Terminal} (h : QueueOk t) (hhead : t'.inputHead = t.inputHead)
    (htail : t'.inputTail = t.inputTail) : QueueOk t' :=
  ⟨hhead ▸ h.head_lt, htail ▸ h.tail_lt⟩

theorem LineOk.of_eq {t t' : Terminal} (h : LineOk t) (hfill : t'.lineFill = t.lineFill)
    (hpos : t'.linePos = t.linePos) : LineOk t' :=
  ⟨hpos ▸ h.pos, by rw [hpos, hfill]; exact h.le⟩

theorem Console.setTty_get (d : Console) (id : ℤ) (t : Terminal) : (d.setTty id t).ttys id = t :=
  Function.update_self ..

theorem SameInput.lineText {t t' : Terminal} (h : SameInput t t') :
    lineText t' = lineText t := by
  unfold Tty.lineText
  rw [h.line, h.lineFill, h.linePos]

/-- A change of the console that leaves the keys and the line of the terminal
    alone, in a phase that collects a line or not as before. -/
theorem Session.Ok.frame (h : s.Ok id) {d : Console} {phase : Phase} (hready : d.ttyReady = true)
    (hrange : (d.ttys id).InRange) (hsame : SameInput (s.console.ttys id) (d.ttys id))
    (hphase : phase.Collecting ↔ s.phase.Collecting) (hecho : 0x0C ∉ phase.bytes) :
    Session.Ok id { s with console := d, phase := phase } where
  ready := hready
  inRange := hrange
  queueOk := h.queueOk.of_eq hsame.inputHead hsame.inputTail
  queue := hsame.queue ▸ h.queue
  lineOk := h.lineOk.of_eq hsame.lineFill hsame.linePos
  echo := hecho
  results := h.results
  collecting := by
    intro hc
    show (d.ttys id).linePos = 0 ∧ lineText (d.ttys id) = _ ∧ _
    rw [hsame.linePos, hsame.lineText]
    exact h.collecting (hphase.mp hc)
  settled := by
    intro hc
    show _ ∧ s.returned.flatten ++ lineText (d.ttys id) = _ ∧ 0x0A ∉ (lineText (d.ttys id)).dropLast
    rw [hsame.lineText]
    exact h.settled (mt hphase.mpr hc)

/-- A byte written by anyone, unless it is a form feed for this terminal. -/
theorem Session.Ok.write (h : s.Ok id) {j : ℤ} (hff : j = id → c ≠ 0x0C) {d : Console}
    (hd : ttyWrite s.console j c = some d) {phase : Phase}
    (hphase : phase.Collecting ↔ s.phase.Collecting) (hecho : 0x0C ∉ phase.bytes) :
    Session.Ok id { s with console := d, phase := phase } := by
  by_cases hj : ttyValid j
  · obtain ⟨t, ht, hup⟩ := updates_of_ttyWrite h.ready hj hd
    obtain ⟨hready, -, hinput, hother⟩ := ttyWrite_input h.ready hj hd
    by_cases hji : j = id
    · subst hji
      rw [if_neg (hff rfl)] at hinput
      obtain ⟨t', ht', hrange⟩ := Terminal.write_inRange h.inRange c
      cases ht'.symm.trans ht
      rw [← hup.get] at hrange
      exact h.frame hready hrange hinput hphase hecho
    · have hsame := hother id (Ne.symm hji)
      exact h.frame hready (hsame ▸ h.inRange) (hsame ▸ SameInput.refl _) hphase hecho
  · rw [ttyWrite, if_pos (Or.inr hj)] at hd
    cases hd
    have hterm := ttyEarlyWrite_terminals s.console c
    have httys : (ttyEarlyWrite s.console c).ttys = s.console.ttys := congrArg Prod.fst hterm
    exact h.frame ((congrArg Prod.snd hterm).trans h.ready) (httys ▸ h.inRange)
      (httys ▸ SameInput.refl _) hphase hecho

theorem inputQueue_push_of_lt (h : QueueOk t) (hroom : inputCount t < 255) (c : UInt8) :
    inputQueue (ttyPushInput t c) = inputQueue t ++ [c] := by
  have h1 := h.head_lt
  have h2 := h.tail_lt
  rw [inputQueue_push h, if_neg]
  unfold inputCount at hroom
  unfold ttyPushInput
  simp only [ttyInputSize] at *
  split_ifs with hfull
  · omega
  · show ¬ (t.inputHead + 1) % 256 = t.inputHead
    omega

/-- A key changes no more than the queue of the terminal. -/
theorem ttyPushInput_eq (t : Terminal) (c : UInt8) : ∃ input head,
    ttyPushInput t c = { t with input := input, inputHead := head } := by
  unfold ttyPushInput
  dsimp only
  split_ifs
  · exact ⟨_, _, rfl⟩
  · exact ⟨_, _, rfl⟩

theorem Session.Ok.pending_eq (h : s.Ok id) : s.pending = inputCount (s.console.ttys id) := by
  have hlen := congrArg List.length h.queue
  rw [List.length_append, inputQueue, length_ringContents] at hlen
  unfold Session.pending
  omega

/-- A key press. -/
theorem Session.Ok.key (h : s.Ok id) {scancode ascii : UInt8}
    (hroom : s.console.TypedAt id scancode ascii → s.pending < 255) :
    Session.Ok id { s with
      console := s.console.key scancode ascii
      keys := if s.console.TypedAt id scancode ascii then s.keys ++ [ascii] else s.keys } := by
  have hready : (s.console.key scancode ascii).ttyReady = true :=
    (Console.key_ready ..).trans h.ready
  have hget := Console.key_ttys s.console id scancode ascii
  by_cases htyped : s.console.TypedAt id scancode ascii
  · rw [if_pos htyped] at hget ⊢
    have hlt : inputCount (s.console.ttys id) < 255 := h.pending_eq ▸ hroom htyped
    obtain ⟨input, head, hpush⟩ := ttyPushInput_eq (s.console.ttys id) ascii
    have hqueue := inputQueue_push_of_lt h.queueOk hlt ascii
    have hok := h.queueOk.push ascii
    rw [hpush] at hget hqueue hok
    refine ⟨hready, ?_, ?_, ?_, ?_, h.echo, h.results, ?_, ?_⟩
    · rw [hget]
      exact h.inRange.of_eq rfl rfl
    · rw [hget]
      exact hok
    · show s.popped ++ inputQueue ((s.console.key scancode ascii).ttys id) = s.keys ++ [ascii]
      rw [hget, hqueue, ← List.append_assoc, h.queue]
    · rw [hget]
      exact h.lineOk.of_eq rfl rfl
    · rw [hget]
      exact h.collecting
    · rw [hget]
      exact h.settled
  · rw [if_neg htyped] at hget ⊢
    exact h.frame hready (hget ▸ h.inRange) (hget ▸ SameInput.refl _) Iff.rfl h.echo

/-- The start of a call, and the call `tty_read` ends with. -/
theorem Session.Ok.enter (h : s.Ok id) (hphase : ¬ s.phase.Collecting) (size : ℕ) :
    (s.enter id size).Ok id := by
  obtain ⟨hcurrent, hflat, hlf⟩ := h.settled hphase
  unfold Session.enter
  dsimp only
  have hget := Console.setTty_get s.console id
  split_ifs with hleft
  · -- the next piece of the line
    obtain ⟨hbytes, hrest, hok⟩ := ttyTakeLine_spec h.lineOk size
    refine ⟨h.ready, ?_, ?_, ?_, ?_, List.not_mem_nil, ?_, fun hc => absurd hc not_false, ?_⟩
    · rw [hget]
      exact h.inRange.of_eq rfl rfl
    · rw [hget]
      exact h.queueOk.of_eq rfl rfl
    · rw [hget]
      exact h.queue
    · rw [hget]
      exact hok
    · intro r hr
      rcases List.mem_append.mp hr with hr | hr
      · exact h.results r hr
      · rw [List.mem_singleton.mp hr, hbytes, List.dropLast_take_eq_take_dropLast]
        exact fun hmem => hlf (List.mem_of_mem_take hmem)
    · intro _
      rw [hget, hrest]
      refine ⟨hcurrent, ?_, fun hmem => hlf ?_⟩
      · rw [List.flatten_append, List.flatten_singleton, hbytes, List.append_assoc,
          List.take_append_drop]
        exact hflat
      · rw [List.dropLast_drop_eq_drop_dropLast] at hmem
        exact List.mem_of_mem_drop hmem
  · -- the line is used up, and a new one begins
    have hle := h.lineOk.le
    have hnil : lineText (s.console.ttys id) = [] := by
      rw [← List.length_eq_zero_iff, length_lineText]
      omega
    rw [hnil, List.append_nil] at hflat
    refine ⟨h.ready, ?_, ?_, ?_, ?_, List.not_mem_nil, h.results, fun _ => ?_,
      fun hc => absurd trivial hc⟩
    · rw [hget]
      exact h.inRange.of_eq rfl rfl
    · rw [hget]
      exact h.queueOk.of_eq rfl rfl
    · rw [hget]
      exact h.queue
    · rw [hget]
      exact ⟨le_rfl, le_rfl⟩
    · rw [hget]
      exact ⟨rfl, hcurrent.symm, hflat⟩

/-- A key is popped and its round edits the line. -/
theorem Session.Ok.pop (h : s.Ok id) {size : ℕ} (hphase : s.phase = .popping size)
    (hin : ttyHasInput (s.console.ttys id)) {t : Terminal}
    (hpop : ttyTakeInput (s.console.ttys id) = (c, t)) :
    Session.Ok id { s with
      console := s.console.setTty id (ttyEditKey t c).terminal
      phase := .echoing size (ttyEditKey t c).echo (ttyEditKey t c).last
      popped := s.popped ++ [c] } := by
  have hget := Console.setTty_get s.console id (ttyEditKey t c).terminal
  obtain ⟨hpos, htext, hflat⟩ := h.collecting (by rw [hphase]; trivial)
  have htake := inputQueue_take h.queueOk hin
  have hqueueOk := h.queueOk.take
  rw [hpop] at htake hqueueOk
  have ht : t = { s.console.ttys id with
      inputTail := ((s.console.ttys id).inputTail + 1) % ttyInputSize } :=
    (congrArg Prod.snd hpop).symm
  have hlineOk : LineOk t := by
    rw [ht]
    exact h.lineOk.of_eq rfl rfl
  have htext' : lineText t = (edit s.popped).current := by
    rw [ht]
    exact htext
  have hlen : (lineText t).length ≤ 255 := htext' ▸ (edit_ok s.popped).length
  obtain ⟨hok, hpos', hedit⟩ := ttyEditKey_text hlineOk (by rw [ht]; exact hpos) hlen c
    (edit s.popped).lines
  rw [htext', ← edit_snoc] at hedit
  obtain ⟨line, fill, hline⟩ := ttyEditKey_line t c
  refine ⟨h.ready, ?_, ?_, ?_, ?_, ttyEditKey_echo t c, h.results, ?_, ?_⟩
  · rw [hget, hline, ht]
    exact h.inRange.of_eq rfl rfl
  · rw [hget, hline]
    exact hqueueOk.of_eq rfl rfl
  · rw [hget, hline]
    show s.popped ++ [c] ++ inputQueue t = s.keys
    rw [List.append_assoc, List.singleton_append, ← htake]
    exact h.queue
  · rw [hget]
    exact hok
  · intro hlast
    have hlast : (ttyEditKey t c).last = false := hlast
    rw [hget]
    rw [hlast] at hedit
    exact ⟨hpos', by rw [hedit]; rfl, by rw [hedit]; exact hflat⟩
  · intro hlast
    have hlast : (ttyEditKey t c).last = true := Bool.eq_true_of_not_eq_false hlast
    rw [hget]
    rw [hlast, if_pos rfl] at hedit
    -- the line now ends in its newline
    obtain ⟨body, hbody, hno, -⟩ := (edit_ok (s.popped ++ [c])).lines
      (lineText (ttyEditKey t c).terminal) (by rw [hedit]; simp)
    refine ⟨by rw [hedit], ?_, ?_⟩
    · rw [hedit, List.flatten_append, List.flatten_singleton, hflat]
    · rw [hbody, List.dropLast_concat]
      exact hno

/-- Every step that loses nothing. -/
theorem Session.Ok.step (h : s.Ok id) {a : SessionEvent} (hok : NoLoss id s a)
    (hs : s.step id a = some s') : s'.Ok id := by
  cases a with
  | key scancode ascii =>
    cases hs
    exact h.key hok
  | write j c =>
    obtain ⟨d, hd, rfl⟩ := Option.map_eq_some_iff.mp hs
    exact h.write hok hd Iff.rfl h.echo
  | call size =>
    simp only [Session.step] at hs
    split at hs
    · next hphase =>
      cases hs
      exact h.enter (by rw [hphase]; exact not_false) size
    · cases hs
  | pop =>
    simp only [Session.step] at hs
    split at hs
    · next size hphase =>
      split_ifs at hs with hin
      cases hs
      exact h.pop hphase hin rfl
    · cases hs
  | echo =>
    have hecho := h.echo
    simp only [Session.step] at hs
    split at hs
    · next size c bytes last hphase =>
      rw [hphase] at hecho
      obtain ⟨d, hd, rfl⟩ := Option.map_eq_some_iff.mp hs
      have hcollect : (Phase.echoing size bytes last).Collecting ↔ s.phase.Collecting := by
        rw [hphase]
        exact Iff.rfl
      have hc : c ≠ 0x0C := fun heq => hecho (heq ▸ List.mem_cons_self)
      exact h.write (fun _ => hc) hd hcollect fun hmem => hecho (List.mem_cons_of_mem c hmem)
    · next size hphase =>
      cases hs
      have hcollect : (Phase.popping size).Collecting ↔ s.phase.Collecting := by
        rw [hphase]
        exact iff_of_true trivial rfl
      exact h.frame h.ready h.inRange (SameInput.refl _) hcollect List.not_mem_nil
    · next size hphase =>
      cases hs
      exact h.enter (by rw [hphase]; exact Bool.noConfusion) size
    · cases hs

end

/-! ## Main theorem -/

/-- A terminal as `tty_init` leaves it. -/
theorem Session.Ok.start (s₀ : Console) (fresh : ℤ → Terminal) {id : ℤ} (hid : ttyValid id) :
    (Session.start (ttyInit s₀ fresh)).Ok id := by
  have hget : (Session.start (ttyInit s₀ fresh)).console.ttys id = ttyClear (fresh id) :=
    if_pos hid
  have hsize : 0 < ttyInputSize := by decide
  have hqueue : QueueOk (ttyClear (fresh id)) := ⟨hsize, hsize⟩
  refine ⟨rfl, (Mirrors.init s₀ fresh).inRange id hid, ?_, ?_, ?_, List.not_mem_nil,
    List.forall_mem_nil _, fun h => absurd h not_false, fun _ => ?_⟩
  · rw [hget]
    exact hqueue
  · rw [hget, (inputQueue_eq_nil hqueue).mpr fun h => h rfl]
    rfl
  · rw [hget]
    exact ⟨le_rfl, le_rfl⟩
  · rw [hget]
    exact ⟨rfl, rfl, List.not_mem_nil⟩

/-- What holds in every state of a session that loses nothing. -/
theorem Session.Ok.run {s₀ : Console} {fresh : ℤ → Terminal} {id : ℤ} (hid : ttyValid id)
    {es : List SessionEvent} {s : Session}
    (hrun : Run (restrict (Steps (Session.step id)) (NoLoss id))
      (Session.start (ttyInit s₀ fresh)) es s) : s.Ok id := by
  apply hrun.invariant (Session.Ok.start s₀ fresh hid)
  intro u a v hu hs
  exact hu.step hs.1 hs.2

/-- **The line discipline.** One task reads a terminal with calls of any sizes,
    while keys are typed and other tasks write to the terminals at any time,
    except a form feed to this one, and never more than 255 keys are pending. At
    every moment the bytes returned so far are a prefix of the lines the keys
    spell. A newline is only ever the last byte of a result, so no result has
    bytes of two lines. Every line ends in LF and has no other. -/
theorem line_discipline (s₀ : Console) (fresh : ℤ → Terminal) {id : ℤ} (hid : ttyValid id)
    {es : List SessionEvent} {s : Session}
    (hrun : Run (restrict (Steps (Session.step id)) (NoLoss id))
      (Session.start (ttyInit s₀ fresh)) es s) :
    s.returned.flatten <+: (edit s.keys).lines.flatten ∧
      (∀ r ∈ s.returned, 0x0A ∉ r.dropLast) ∧
      ∀ l ∈ (edit s.keys).lines, ∃ body, l = body ++ [0x0A] ∧ 0x0A ∉ body ∧ body.length ≤ 255 := by
  have h := Session.Ok.run hid hrun
  have hpopped : s.returned.flatten <+: (edit s.popped).lines.flatten := by
    by_cases hphase : s.phase.Collecting
    · rw [(h.collecting hphase).2.2]
    · rw [← (h.settled hphase).2.1]
      exact List.prefix_append _ _
  have hkeys : (edit s.popped).lines.flatten <+: (edit s.keys).lines.flatten := by
    rw [← h.queue]
    exact (edit_lines_mono _ _).flatten
  exact ⟨hpopped.trans hkeys, h.results, (edit_ok s.keys).lines⟩

/-- `hi`, a backspace and `o`, typed around a first call, and two reads of two
    bytes. -/
theorem line_discipline_two_reads :
    ∃ es s, Run (restrict (Steps (Session.step 0)) (NoLoss 0)) (Session.start bootConsole) es s ∧
      s.returned = [[0x68, 0x6F], [0x0A]] ∧
      s.returned.flatten <+: (edit s.keys).lines.flatten := by
  let es : List SessionEvent :=
    [.key 0x23 0x68, .call 2, .pop, .echo, .echo, .key 0x17 0x69, .key 0x0E 0x08, .pop, .echo,
      .echo, .key 0x18 0x6F, .pop, .echo, .write 0 0x21, .echo, .echo, .echo, .pop, .echo, .echo,
      .key 0x1C 0x0D, .pop, .echo, .echo, .echo, .call 2]
  obtain ⟨s, hrun, hreturned⟩ : ∃ s, Run (restrict (Steps (Session.step 0)) (NoLoss 0))
      (Session.start bootConsole) es s ∧ s.returned = [[0x68, 0x6F], [0x0A]] :=
    exists_run_restrict (by decide +kernel)
  exact ⟨es, s, hrun, hreturned, (line_discipline _ _ (by decide) hrun).1⟩

/-! ## A call returns -/

/-- The reader goes on by itself. -/
def SessionEvent.Own : SessionEvent → Prop
  | .pop | .echo => True
  | _ => False

/-- The steps of the reader inside a call. -/
def ReaderSteps (id : ℤ) : Session → SessionEvent → Session → Prop :=
  restrict (Steps (Session.step id)) fun _ a => a.Own

section

variable {id : ℤ} {s : Session} {size : ℕ}

/-- All bytes of a round are echoed: no store leaves `cells`. -/
theorem Session.Ok.echoes {bytes : List UInt8} {last : Bool} (h : s.Ok id) (hid : ttyValid id)
    (hphase : s.phase = .echoing size bytes last) :
    ∃ d, Reachable (ReaderSteps id) s { s with console := d, phase := .echoing size [] last } ∧
      Session.Ok id { s with console := d, phase := .echoing size [] last } ∧
      SameInput (s.console.ttys id) (d.ttys id) := by
  induction bytes generalizing s with
  | nil =>
    refine ⟨s.console, ?_, ?_, SameInput.refl _⟩
    · rw [← hphase]
      exact Reachable.refl s
    · rw [← hphase]
      exact h
  | cons c bytes ih =>
    obtain ⟨t, ht, -⟩ := Terminal.write_inRange h.inRange c
    obtain ⟨d, hd, -, -⟩ := ttyWrite_spec h.ready hid ht
    have hstep : s.step id .echo =
        some { s with console := d, phase := .echoing size bytes last } := by
      simp only [Session.step, hphase, hd, Option.map_some]
    have hc : c ≠ 0x0C := by
      rintro rfl
      exact h.echo (by rw [hphase]; exact List.mem_cons_self)
    obtain ⟨-, -, hinput, -⟩ := ttyWrite_input h.ready hid hd
    rw [if_neg hc] at hinput
    obtain ⟨d', hreach, hok, hsame⟩ := ih (h.step (a := .echo) trivial hstep) rfl
    have hfirst : ReaderSteps id s .echo
        { s with console := d, phase := .echoing size bytes last } := ⟨trivial, hstep⟩
    exact ⟨d', ((Reachable.refl s).snoc hfirst).trans hreach, hok, hinput.trans hsame⟩

/-- Behind its echo a round goes back to the loop, or leaves it. -/
theorem readerSteps_next (hphase : s.phase = .echoing size [] false) :
    ReaderSteps id s .echo { s with phase := .popping size } :=
  ⟨trivial, by simp only [Steps, Session.step, hphase]⟩

theorem readerSteps_leave (hphase : s.phase = .echoing size [] true) :
    ReaderSteps id s .echo (s.enter id size) :=
  ⟨trivial, by simp only [Steps, Session.step, hphase]⟩

/-- One key, from one call of `tty_pop_input` to the next or to the end of the
    call. -/
theorem Session.Ok.round (h : s.Ok id) (hid : ttyValid id) (hphase : s.phase = .popping size)
    {c : UInt8} {queue : List UInt8} (hq : inputQueue (s.console.ttys id) = c :: queue) :
    ∃ s', Reachable (ReaderSteps id) s s' ∧ s'.Ok id ∧ s'.popped = s.popped ++ [c] ∧
      inputQueue (s'.console.ttys id) = queue ∧
      if keyKind c = .newline then
        s'.phase = .outside ∧
          s'.returned = s.returned ++ [((edit s.popped).current ++ [0x0A]).take size]
      else s'.phase = .popping size ∧ s'.returned = s.returned := by
  have hin : ttyHasInput (s.console.ttys id) := by
    by_contra hno
    rw [(inputQueue_eq_nil h.queueOk).mpr hno] at hq
    cases hq
  have htake := inputQueue_take h.queueOk hin
  rw [hq] at htake
  obtain ⟨hc, hqueue⟩ := List.cons.inj htake
  obtain ⟨-, -, hflat⟩ := h.collecting (by rw [hphase]; trivial)
  generalize htaken : (ttyTakeInput (s.console.ttys id)).2 = t at hqueue
  have hpop : ttyTakeInput (s.console.ttys id) = (c, t) := Prod.ext hc.symm htaken
  have hstep : ReaderSteps id s .pop { s with
      console := s.console.setTty id (ttyEditKey t c).terminal
      phase := .echoing size (ttyEditKey t c).echo (ttyEditKey t c).last
      popped := s.popped ++ [c] } := by
    refine ⟨trivial, ?_⟩
    simp only [Steps, Session.step, hphase, if_pos hin, hpop]
  have hok := h.pop hphase hin hpop
  obtain ⟨d, hreach, hok', hsame⟩ := hok.echoes hid rfl
  have hqueue' : inputQueue (d.ttys id) = queue := by
    obtain ⟨line, fill, hline⟩ := ttyEditKey_line t c
    rw [hsame.queue, Console.setTty_get, hline]
    exact hqueue.symm
  have hto := ((Reachable.refl s).snoc hstep).trans hreach
  have hlast := ttyEditKey_last t c
  by_cases hnewline : keyKind c = .newline
  · rw [decide_eq_true hnewline] at hlast
    rw [hlast] at hto hok'
    -- the line is the unfinished one with its newline, and part of it is returned
    have htext : lineText (d.ttys id) = (edit s.popped).current ++ [0x0A] := by
      obtain ⟨-, hlines, -⟩ := hok'.settled Bool.noConfusion
      have hedit : (edit (s.popped ++ [c])).lines =
          (edit s.popped).lines ++ [(edit s.popped).current ++ [0x0A]] := by
        rw [edit_snoc, Edited.key, hnewline]
      rw [hedit, List.flatten_append, List.flatten_singleton, hflat] at hlines
      exact List.append_cancel_left hlines
    have hleft : (d.ttys id).linePos < (d.ttys id).lineFill := by
      have hlen := congrArg List.length htext
      rw [length_lineText, List.length_append, List.length_singleton] at hlen
      omega
    obtain ⟨hbytes, -, -⟩ := ttyTakeLine_spec hok'.lineOk size
    refine ⟨_, hto.snoc (readerSteps_leave rfl), hok'.enter Bool.noConfusion size, ?_, ?_, ?_⟩
    · rw [Session.enter, if_pos hleft]
    · rw [Session.enter, if_pos hleft]
      show inputQueue ((d.setTty id _).ttys id) = queue
      rw [Console.setTty_get]
      exact hqueue'
    · rw [if_pos hnewline, Session.enter, if_pos hleft]
      refine ⟨rfl, ?_⟩
      rw [← htext, ← hbytes]
  · rw [decide_eq_false hnewline] at hlast
    rw [hlast] at hto hok'
    have hnext : ReaderSteps id _ .echo _ := readerSteps_next (s := { s with
      console := d, phase := .echoing size [] false, popped := s.popped ++ [c] }) rfl
    refine ⟨_, hto.snoc hnext, hok'.step (a := .echo) trivial hnext.2, rfl, hqueue', ?_⟩
    rw [if_neg hnewline]
    exact ⟨rfl, rfl⟩

theorem Session.Ok.returns (h : s.Ok id) (hid : ttyValid id) (hphase : s.phase = .popping size)
    {keys rest : List UInt8} {c : UInt8}
    (hq : inputQueue (s.console.ttys id) = keys ++ c :: rest)
    (hkeys : ∀ k ∈ keys, keyKind k ≠ .newline) (hc : keyKind c = .newline) :
    ∃ s', Reachable (ReaderSteps id) s s' ∧ s'.phase = .outside ∧
      s'.returned = s.returned ++ [((edit (s.popped ++ keys)).current ++ [0x0A]).take size] := by
  induction keys generalizing s with
  | nil =>
    obtain ⟨s', hreach, -, -, -, hend⟩ := h.round hid hphase hq
    rw [if_pos hc] at hend
    rw [List.append_nil]
    exact ⟨s', hreach, hend⟩
  | cons k keys ih =>
    obtain ⟨s1, hreach1, hok1, hpopped, hqueue, hend⟩ := h.round hid hphase hq
    rw [if_neg (hkeys k List.mem_cons_self)] at hend
    obtain ⟨s', hreach, hphase', hreturned⟩ := ih hok1 hend.1 hqueue
      fun j hj => hkeys j (List.mem_cons_of_mem k hj)
    rw [hpopped, hend.2, List.append_assoc, List.singleton_append] at hreturned
    exact ⟨s', hreach1.trans hreach, hphase', hreturned⟩

/-- A call that collects a line, in `tty_pop_input` or in the echo of a key, returns by
    the reader's own steps once a newline is pending: as much as it asked for of the
    line the keys spell. -/
theorem read_returns {s₀ : Console} {fresh : ℤ → Terminal} (hid : ttyValid id)
    {es : List SessionEvent} (hrun : Run (restrict (Steps (Session.step id)) (NoLoss id))
      (Session.start (ttyInit s₀ fresh)) es s)
    (hphase : s.phase = .popping size ∨ ∃ bytes, s.phase = .echoing size bytes false)
    {keys rest : List UInt8} {c : UInt8} (hkeys : s.keys = s.popped ++ keys ++ c :: rest)
    (hno : ∀ k ∈ keys, keyKind k ≠ .newline) (hc : keyKind c = .newline) :
    ∃ s', Reachable (ReaderSteps id) s s' ∧ s'.phase = .outside ∧
      s'.returned = s.returned ++ [((edit (s.popped ++ keys)).current ++ [0x0A]).take size] := by
  have h := Session.Ok.run hid hrun
  have hq : inputQueue (s.console.ttys id) = keys ++ c :: rest := by
    have heq := h.queue.trans hkeys
    rw [List.append_assoc] at heq
    exact List.append_cancel_left heq
  obtain hphase | ⟨bytes, hphase⟩ := hphase
  · exact h.returns hid hphase hq hno hc
  · -- the echo ends first
    obtain ⟨d, hreach, hok, hsame⟩ := h.echoes hid hphase
    have hnext : ReaderSteps id _ .echo _ :=
      readerSteps_next (s := { s with console := d, phase := .echoing size [] false }) rfl
    obtain ⟨s', hreach', hend⟩ := (hok.step (a := .echo) trivial hnext.2).returns hid rfl
      (hsame.queue.trans hq) hno hc
    exact ⟨s', (hreach.snoc hnext).trans hreach', hend⟩

deriving instance DecidableEq for Phase

/-- `h` and a newline, which comes before the `h` is echoed. -/
theorem read_returns_a_line : ∃ s s', s.phase = .echoing 10 [0x68] false ∧
    Reachable (ReaderSteps 0) s s' ∧ s'.returned = [[0x68, 0x0A]] := by
  obtain ⟨s, hrun, hphase, hpopped, hreturned, htyped⟩ :
      ∃ s, Run (restrict (Steps (Session.step 0)) (NoLoss 0)) (Session.start bootConsole)
        [.call 10, .key 0x23 0x68, .pop, .key 0x1C 0x0D] s ∧
        s.phase = .echoing 10 [0x68] false ∧ s.popped = [0x68] ∧ s.returned = [] ∧
        s.keys = s.popped ++ [] ++ [0x0D] :=
    exists_run_restrict (by decide +kernel)
  obtain ⟨s', hreach, -, hline⟩ := read_returns (by decide) hrun (.inr ⟨_, hphase⟩) htyped
    (fun k hk => nomatch hk) (by decide)
  refine ⟨s, s', hphase, hreach, ?_⟩
  rw [hline, hreturned, hpopped]
  decide

end

end Mboot.Tty
