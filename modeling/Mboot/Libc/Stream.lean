import Mboot.Common.Run

/-!
# Reading from a stream

Model of `fread`, `fgets`, `getc` and `ungetc` of the C library (`user/src/libc.c`, lines
586–610 and 656–696). A stream keeps no buffer: each function takes the byte in the
pushback slot, if there is one, and asks the kernel for the rest.

What is left of a stream is the byte in the slot followed by the bytes the kernel has
not delivered (`Input.content`). `replay` says what reading and pushing back should do
with it.

* `stream_lossless_iff`: along any sequence of calls everything taken is delivered, in
  order, and every `fread` keeps to its request, if and only if every `fread` on the way
  has elements of a size, takes whole elements only and has a request that does not wrap to
  nothing (`FreadDefined`).
* `fread_loses_bytes`: `fread` of no element takes the byte pushed back, and of a larger
  element what one `read` brings; with elements of size 0 it divides by zero.
-/

namespace Mboot.Libc

open Mboot.Common

/-! ## Model -/

/-- The fields of `FILE` (`stdio.h`, lines 23–34) that the readers use. -/
structure File where
  eof : Bool
  error : Bool
  ungetc : ℤ

/-- A stream: its `FILE`, the bytes the kernel has not delivered, and the numbers of
    calls of `read` so far and of those among them that failed. -/
structure Input where
  file : File
  unread : List UInt8
  reads : ℕ
  failures : ℕ

/-- `EOF`. -/
def eofValue : ℤ := -1

/-- The cast of an `int` to a byte. -/
def byteOf (c : ℤ) : UInt8 := UInt8.ofNat (c % 256).toNat

section Model

-- How `read` number `k` behaves: it fails, or it delivers at most `c + 1` bytes.
variable (device : ℕ → Option ℕ)

/-- `read(fd, p, n)`: `none` if it fails, otherwise the bytes delivered, at least one
    unless the stream has ended or none is asked for, and at most as many as `ssize_t`
    can report. -/
def readBytes (n : ℕ) (s : Input) : Option (List UInt8) × Input :=
  match device s.reads with
  | none => (none, { s with reads := s.reads + 1, failures := s.failures + 1 })
  | some c =>
    let count := min n (min (c + 1) (2 ^ 31 - 1))
    (some (s.unread.take count), { s with unread := s.unread.drop count, reads := s.reads + 1 })

/-- What a call of `fread` did: the bytes it stored at `ptr` and the value it returned,
    `none` if it divided by zero. -/
structure FreadResult where
  size : UInt32
  nmemb : UInt32
  stored : List UInt8
  returned : Option ℕ

/-- `count / size`. -/
def divide (count : ℕ) (size : UInt32) : Option ℕ :=
  if size = 0 then none else some (count / size.toNat)

/-- The part of `fread` after the pushback slot (lines 600–609), with the bytes stored
    so far. -/
def freadRest (size nmemb : UInt32) (stored : List UInt8) (s : Input) : FreadResult × Input :=
  let total := (size * nmemb).toNat
  match readBytes device (total - stored.length) s with
  | (none, s) => (⟨size, nmemb, stored, divide stored.length size⟩,
      { s with file := { s.file with error := true } })
  | (some bytes, s) =>
    let stored := stored ++ bytes
    (⟨size, nmemb, stored, divide stored.length size⟩,
      if bytes.length = 0 then { s with file := { s.file with eof := true } } else s)

/-- `fread` (lines 586–610). -/
def fread (size nmemb : UInt32) (s : Input) : FreadResult × Input :=
  let total := (size * nmemb).toNat
  if s.file.ungetc ≥ 0 then
    let stored := [byteOf s.file.ungetc]
    let s := { s with file := { s.file with ungetc := -1 } }
    if stored.length ≥ total then (⟨size, nmemb, stored, divide stored.length size⟩, s)
    else freadRest device size nmemb stored s
  else freadRest device size nmemb [] s

/-- `getc` (lines 673–687). -/
def getc (s : Input) : ℤ × Input :=
  if s.file.ungetc ≥ 0 then
    (s.file.ungetc, { s with file := { s.file with ungetc := -1 } })
  else
    match readBytes device 1 s with
    | (some (b :: _), s) => (b.toNat, s)
    | (some [], s) => (eofValue, { s with file := { s.file with eof := true } })
    | (none, s) => (eofValue, s)

/-- `ungetc` (lines 689–696). -/
def ungetc (c : ℤ) (s : Input) : ℤ × Input :=
  if s.file.ungetc ≥ 0 then (eofValue, s)
  else (c, { s with file := { s.file with ungetc := c, eof := false } })

/-- The loop of `fgets` (lines 658–668) with `left` rounds to go and the bytes stored so
    far; `none` is the null pointer. -/
def fgetsLoop : ℕ → List UInt8 → Input → Option (List UInt8) × Input
  | 0, stored, s => (some stored, s)
  | left + 1, stored, s =>
    let (c, s) := getc device s
    if c = eofValue then (if stored.length = 0 then none else some stored, s)
    else
      let stored := stored ++ [byteOf c]
      if c = 10 then (some stored, s) else fgetsLoop left stored s

/-- `fgets` (lines 656–671): the string stored, without its terminator. -/
def fgets (size : ℤ) (s : Input) : Option (List UInt8) × Input :=
  fgetsLoop device (size - 1).toNat [] s

end Model

/-! ## What is left of a stream -/

/-- The bytes still to be delivered: the one pushed back, then those not yet read. -/
def Input.content (s : Input) : List UInt8 :=
  (if s.file.ungetc ≥ 0 then [byteOf s.file.ungetc] else []) ++ s.unread

/-- What the caller of a stream sees. -/
inductive StreamEvent
  | pushed (c : UInt8)
  | delivered (bytes : List UInt8)
  | ended
  | failed

/-- What is left of a text after the events: bytes are delivered from its front, a byte
    pushed back comes before it, and its end is reported only when nothing is left.
    `none` if the events do not fit the text. -/
def replay : List UInt8 → List StreamEvent → Option (List UInt8)
  | text, [] => some text
  | text, .pushed c :: es => replay (c :: text) es
  | text, .delivered bytes :: es =>
    if bytes <+: text then replay (text.drop bytes.length) es else none
  | text, .ended :: es => if text = [] then replay text es else none
  | text, .failed :: es => replay text es

theorem replay_append (text : List UInt8) (es fs : List StreamEvent) :
    replay text (es ++ fs) = (replay text es).bind fun rest => replay rest fs := by
  induction es generalizing text with
  | nil => rfl
  | cons e es ih =>
    cases e with
    | pushed c => exact ih _
    | delivered bytes | ended =>
      simp only [List.cons_append, replay]
      split_ifs
      · exact ih _
      · rfl
    | failed => exact ih _

/-! ## One call -/

/-- The pushback slot is empty or holds a byte. -/
def Input.SlotOk (s : Input) : Prop := s.file.ungetc = -1 ∨ ∃ b : UInt8, s.file.ungetc = b.toNat

theorem byteOf_toNat (b : UInt8) : byteOf b.toNat = b := by
  have hb := b.toNat_lt
  have hmod : ((b.toNat : ℤ) % 256).toNat = b.toNat := by omega
  rw [byteOf, hmod, UInt8.ofNat_toNat]

theorem toNat_ne_eofValue (b : UInt8) : (b.toNat : ℤ) ≠ eofValue := by
  rw [eofValue]
  omega

variable {device : ℕ → Option ℕ} {s : Input} {n : ℕ}

theorem Input.content_of_empty (h : s.file.ungetc = -1) : s.content = s.unread := by
  simp [Input.content, h]

theorem Input.content_of_byte {b : UInt8} (h : s.file.ungetc = b.toNat) :
    s.content = b :: s.unread := by
  rw [Input.content, h, if_pos (Int.natCast_nonneg _), byteOf_toNat]
  rfl

/-- What `read` does. -/
theorem readBytes_cases (device : ℕ → Option ℕ) (n : ℕ) (s : Input) :
    (device s.reads = none ∧ ∃ r, readBytes device n s =
      (none, { s with reads := r, failures := s.failures + 1 })) ∨
    (device s.reads ≠ none ∧ ∃ r count, count ≤ n ∧ (0 < n → 0 < count) ∧ readBytes device n s =
      (some (s.unread.take count), { s with unread := s.unread.drop count, reads := r })) := by
  rw [readBytes]
  cases device s.reads with
  | none => exact .inl ⟨rfl, _, rfl⟩
  | some c => exact .inr ⟨by simp, _, _, Nat.min_le_left _ _, fun h => by omega, rfl⟩

/-- The number of bytes that the next `read` delivers of `n`. -/
def delivers (device : ℕ → Option ℕ) (n : ℕ) (s : Input) : ℕ :=
  ((readBytes device n s).1.getD []).length

theorem delivers_le (device : ℕ → Option ℕ) (n : ℕ) (s : Input) : delivers device n s ≤ n := by
  rw [delivers]
  obtain ⟨-, r, hr⟩ | ⟨-, r, count, hle, -, hr⟩ := readBytes_cases device n s
  · rw [hr]
    exact Nat.zero_le n
  · rw [hr, Option.getD_some, List.length_take]
    omega

theorem delivers_file (device : ℕ → Option ℕ) (n : ℕ) (s : Input) (file : File) :
    delivers device n { s with file } = delivers device n s := by
  unfold delivers readBytes
  cases device s.reads <;> rfl

/-- The number of bytes in the pushback slot. -/
def Input.pushed (s : Input) : ℕ := if s.file.ungetc ≥ 0 then 1 else 0

/-- The number of bytes that `fread` takes off the stream: the one pushed back and those of
    one `read`. -/
def taken (device : ℕ → Option ℕ) (size nmemb : UInt32) (s : Input) : ℕ :=
  s.pushed + delivers device ((size * nmemb).toNat - s.pushed) s

/-- `getc` takes the first byte of what is left; it reports the end without a failed
    read only if nothing is left. -/
theorem getc_spec (device : ℕ → Option ℕ) (hs : s.SlotOk) :
    (getc device s).2.SlotOk ∧
      ((∃ b : UInt8, (getc device s).1 = b.toNat ∧ s.content = b :: (getc device s).2.content) ∨
        ((getc device s).1 = eofValue ∧ (getc device s).2.content = s.content ∧
          ((getc device s).2.failures = s.failures → s.content = []))) := by
  obtain hempty | ⟨b, hb⟩ := hs
  · have hneg : ¬ s.file.ungetc ≥ 0 := by omega
    rw [getc, if_neg hneg]
    obtain ⟨-, r, hr⟩ | ⟨-, r, count, hle, hpos, hr⟩ := readBytes_cases device 1 s
    · rw [hr]
      exact ⟨.inl hempty, .inr ⟨rfl, rfl, fun h => by simp at h⟩⟩
    · obtain rfl : count = 1 := by omega
      rw [hr]
      cases hu : s.unread with
      | nil =>
        refine ⟨.inl hempty, .inr ⟨rfl, ?_, fun _ => ?_⟩⟩
        · simp [Input.content, hempty, hu]
        · rw [Input.content_of_empty hempty, hu]
      | cons b rest =>
        refine ⟨.inl hempty, .inl ⟨b, rfl, ?_⟩⟩
        rw [Input.content_of_empty hempty, hu]
        simp [Input.content, hempty]
  · rw [getc, if_pos (by omega)]
    refine ⟨.inl rfl, .inl ⟨b, hb, ?_⟩⟩
    rw [Input.content_of_byte hb, Input.content_of_empty rfl]

/-- The bytes `fgets` stores are the first ones of what is left. -/
theorem fgetsLoop_spec (device : ℕ → Option ℕ) (left : ℕ) (stored : List UInt8)
    (hs : s.SlotOk) :
    (fgetsLoop device left stored s).2.SlotOk ∧
      ((∃ bytes, (fgetsLoop device left stored s).1 = some (stored ++ bytes) ∧
          s.content = bytes ++ (fgetsLoop device left stored s).2.content) ∨
        (stored = [] ∧ (fgetsLoop device left stored s).1 = none ∧
          (fgetsLoop device left stored s).2.content = s.content ∧
          ((fgetsLoop device left stored s).2.failures = s.failures → s.content = []))) := by
  induction left generalizing stored s with
  | zero => exact ⟨hs, .inl ⟨[], by simp [fgetsLoop], by simp [fgetsLoop]⟩⟩
  | succ left ih =>
    obtain ⟨hslot, ⟨b, hb, hcontent⟩ | ⟨heof, hsame, hend⟩⟩ := getc_spec device hs
    · simp only [fgetsLoop, hb, if_neg (toNat_ne_eofValue b), byteOf_toNat]
      split_ifs with hnl
      · exact ⟨hslot, .inl ⟨[b], rfl, hcontent⟩⟩
      · obtain ⟨hslot', ⟨bytes, hbytes, hrest⟩ | ⟨hnil, -⟩⟩ := ih (stored ++ [b]) hslot
        · refine ⟨hslot', .inl ⟨b :: bytes, ?_, ?_⟩⟩
          · rw [hbytes, List.append_assoc]
            rfl
          · rw [hcontent, hrest]
            rfl
        · simp at hnil
    · simp only [fgetsLoop, heof, if_true]
      refine ⟨hslot, ?_⟩
      split_ifs with hnil
      · exact .inr ⟨List.length_eq_zero_iff.mp hnil, rfl, hsame, hend⟩
      · exact .inl ⟨[], by simp, hsame.symm⟩

/-- What `fread` reads after the pushback slot: the bytes it stores come from the front
    of what is left. -/
theorem freadRest_spec (device : ℕ → Option ℕ) (size nmemb : UInt32) (stored : List UInt8)
    (hs : s.file.ungetc = -1) :
    (freadRest device size nmemb stored s).2.file.ungetc = -1 ∧
      ((freadRest device size nmemb stored s).2.failures = s.failures ↔ device s.reads ≠ none) ∧
      ∃ bytes, (freadRest device size nmemb stored s).1 =
          ⟨size, nmemb, stored ++ bytes, divide (stored ++ bytes).length size⟩ ∧
        bytes.length = delivers device ((size * nmemb).toNat - stored.length) s ∧
        s.content = bytes ++ (freadRest device size nmemb stored s).2.content ∧
        (bytes = [] → stored.length < (size * nmemb).toNat →
          device s.reads ≠ none → s.content = []) := by
  rw [freadRest, delivers]
  obtain ⟨hfail, r, hr⟩ | ⟨hread, r, count, hle, hpos, hr⟩ :=
    readBytes_cases device ((size * nmemb).toNat - stored.length) s
  · rw [hr]
    exact ⟨hs, by simp [hfail], [], by simp, rfl, rfl, fun _ _ h => absurd hfail h⟩
  · simp only [hr]
    refine ⟨?_, ?_, s.unread.take count, rfl, rfl, ?_, ?_⟩
    · split_ifs <;> exact hs
    · split_ifs <;> exact iff_of_true rfl hread
    · rw [Input.content_of_empty hs, Input.content_of_empty (by split_ifs <;> exact hs)]
      split_ifs <;> exact (List.take_append_drop count s.unread).symm
    · intro hnil hlt _
      rw [Input.content_of_empty hs]
      obtain hzero | hempty := List.take_eq_nil_iff.mp hnil
      · have := hpos (by omega)
        omega
      · exact hempty

/-- `fread` stores the first bytes of what is left. With nothing pushed back it stores none
    of a request that is not empty only if nothing is left or the read fails. -/
theorem fread_spec (device : ℕ → Option ℕ) (size nmemb : UInt32) (hs : s.SlotOk) :
    (fread device size nmemb s).2.SlotOk ∧
      ∃ bytes, (fread device size nmemb s).1 = ⟨size, nmemb, bytes, divide bytes.length size⟩ ∧
        bytes.length = taken device size nmemb s ∧
        s.content = bytes ++ (fread device size nmemb s).2.content ∧
        (s.pushed = 0 →
          ((fread device size nmemb s).2.failures = s.failures ↔ device s.reads ≠ none) ∧
          (bytes = [] → (size * nmemb).toNat ≠ 0 → device s.reads ≠ none → s.content = [])) := by
  rw [fread, taken]
  obtain hempty | ⟨b, hb⟩ := hs
  · have hneg : ¬ s.file.ungetc ≥ 0 := by omega
    have hpushed : s.pushed = 0 := if_neg hneg
    rw [if_neg hneg, hpushed, Nat.zero_add]
    obtain ⟨hslot, hfail, bytes, hres, hlen, hcontent, hend⟩ :=
      freadRest_spec device size nmemb [] hempty
    exact ⟨.inl hslot, bytes, hres, hlen, hcontent, fun _ => ⟨hfail, fun hnil hne =>
      hend hnil (Nat.pos_of_ne_zero hne)⟩⟩
  · have hpos : s.file.ungetc ≥ 0 := by omega
    have hpushed : s.pushed = 1 := if_pos hpos
    have hcontent := Input.content_of_byte hb
    rw [if_pos hpos, hpushed]
    simp only [hb, byteOf_toNat]
    split_ifs with hfull
    · have hnone := delivers_le device ((size * nmemb).toNat - 1) s
      rw [List.length_singleton] at hfull
      exact ⟨.inl rfl, [b], rfl, by rw [List.length_singleton]; omega, hcontent, nofun⟩
    · obtain ⟨hslot, -, bytes, hres, hlen, hrest, -⟩ := freadRest_spec device
        (s := { s with file := { s.file with ungetc := -1 } }) size nmemb [b] rfl
      refine ⟨.inl hslot, b :: bytes, hres, ?_, ?_, nofun⟩
      · rw [List.length_cons, hlen, delivers_file, Nat.add_comm, List.length_singleton]
      · rw [hcontent, List.cons_append, ← hrest]
        rfl

/-! ## Runs -/

/-- The calls a program makes on a stream. -/
inductive StreamCall
  | getc
  | ungetc (c : UInt8)
  | fgets (size : ℤ)
  | fread (size nmemb : UInt32)

/-- A stream with what its caller has seen so far. -/
structure Session where
  input : Input
  events : List StreamEvent
  freads : List FreadResult

/-- The end of the stream as the caller sees it: it is the end unless a read failed. -/
def endEvent (s s' : Input) : StreamEvent := if s'.failures = s.failures then .ended else .failed

/-- What the caller of `fread` gets: the elements it is told of. None of a request that is not
    empty is the end of the stream. -/
def FreadResult.event (r : FreadResult) (s s' : Input) : StreamEvent :=
  let bytes := r.stored.take (r.returned.getD 0 * r.size.toNat)
  if bytes = [] ∧ r.size.toNat * r.nmemb.toNat ≠ 0 then endEvent s s' else .delivered bytes

/-- One call. -/
def sessionStep (device : ℕ → Option ℕ) (s : Session) : StreamCall → Session
  | .getc =>
    let r := getc device s.input
    let event := if r.1 = eofValue then endEvent s.input r.2 else .delivered [byteOf r.1]
    { s with input := r.2, events := s.events ++ [event] }
  | .ungetc c =>
    let r := ungetc c.toNat s.input
    { s with input := r.2, events := s.events ++ (if r.1 = eofValue then [] else [.pushed c]) }
  | .fgets size =>
    let r := fgets device size s.input
    let event := match r.1 with
      | none => endEvent s.input r.2
      | some bytes => .delivered bytes
    { s with input := r.2, events := s.events ++ [event] }
  | .fread size nmemb =>
    let r := fread device size nmemb s.input
    { input := r.2, events := s.events ++ [r.1.event s.input r.2], freads := s.freads ++ [r.1] }

/-- `fread` kept to its request: it did not divide by zero, it stored no more than
    `size * nmemb` bytes, and for an empty request it returned 0. -/
structure FreadResult.Ok (r : FreadResult) : Prop where
  divides : r.returned ≠ none
  bound : r.stored.length ≤ r.size.toNat * r.nmemb.toNat
  empty : r.size.toNat * r.nmemb.toNat = 0 → r.returned = some 0

/-- What the caller has seen is `text` with the bytes pushed back, in order and without a
    gap, and every `fread` kept to its request. -/
structure Lossless (text : List UInt8) (s : Session) : Prop where
  replays : replay text s.events = some s.input.content
  freads : ∀ r ∈ s.freads, r.Ok

/-- What an `fread` needs: elements of a size; no byte pushed back if it asks for none; a
    whole number of elements in the byte pushed back and what one `read` brings; and, if the
    size of the request wraps to 0, the end of the stream or a read that fails. -/
structure FreadNeeds (device : ℕ → Option ℕ) (s : Input) (size nmemb : UInt32) : Prop where
  sized : size ≠ 0
  slot : nmemb = 0 → s.pushed = 0
  whole : size.toNat ∣ taken device size nmemb s
  wraps : nmemb ≠ 0 → size * nmemb = 0 → s.content = [] ∨ device s.reads = none

/-- The call is no `fread`, or one that gets what it needs. -/
def FreadDefined (device : ℕ → Option ℕ) (s : Session) : StreamCall → Prop
  | .fread size nmemb => FreadNeeds device s.input size nmemb
  | _ => True

/-- A stream just opened (`fopen`, lines 546–555) on a file with the bytes `text`. -/
def openSession (text : List UInt8) : Session := ⟨⟨⟨false, false, -1⟩, text, 0, 0⟩, [], []⟩

section Step

variable {text rest : List UInt8} {t : Session} {es : List StreamEvent}

theorem Lossless.replay_snoc (ht : Lossless text t) {e : StreamEvent}
    (he : replay t.input.content [e] = some rest) : replay text (t.events ++ [e]) = some rest := by
  rw [replay_append, ht.replays]
  exact he

theorem replay_delivered (bytes rest : List UInt8) :
    replay (bytes ++ rest) [.delivered bytes] = some rest := by
  simp [replay]

/-- The end is reported at the end. -/
theorem replay_endEvent {s s' : Input} (hsame : s'.content = s.content)
    (hend : s'.failures = s.failures → s.content = []) :
    replay s.content [endEvent s s'] = some s'.content := by
  rw [endEvent, hsame]
  split_ifs with h
  · simp [replay, hend h]
  · rfl

theorem divide_of_ne_zero {size : UInt32} (h : size ≠ 0) (count : ℕ) :
    divide count size = some (count / size.toNat) := if_neg h

theorem toNat_mul_ne_zero {size nmemb : UInt32} (hsize : size ≠ 0) (hn : nmemb ≠ 0) :
    size.toNat * nmemb.toNat ≠ 0 :=
  Nat.mul_ne_zero (fun h => hsize (UInt32.toNat_inj.mp h)) fun h => hn (UInt32.toNat_inj.mp h)

theorem FreadNeeds.ok {size nmemb : UInt32} (h : FreadNeeds device s size nmemb)
    (hs : s.SlotOk) : (fread device size nmemb s).1.Ok := by
  obtain ⟨-, bytes, hres, hlen, -⟩ := fread_spec device size nmemb hs
  have hread := delivers_le device ((size * nmemb).toNat - s.pushed) s
  have htotal : (size * nmemb).toNat ≤ size.toNat * nmemb.toNat := by
    rw [UInt32.toNat_mul]
    exact Nat.mod_le _ _
  have hslot : s.pushed ≤ size.toNat * nmemb.toNat := by
    by_cases hn : nmemb = 0
    · rw [h.slot hn]
      exact Nat.zero_le _
    · have hpos := Nat.pos_of_ne_zero (toNat_mul_ne_zero h.sized hn)
      unfold Input.pushed
      split_ifs <;> omega
  have hbound : bytes.length ≤ size.toNat * nmemb.toNat := by
    rw [hlen, taken]
    omega
  rw [hres, divide_of_ne_zero h.sized]
  refine ⟨by simp, hbound, fun hzero => ?_⟩
  have hnil : bytes.length = 0 := by
    have : size.toNat * nmemb.toNat = 0 := hzero
    omega
  simp [hnil]

/-- It hands on all it takes, and reports the end at the end. -/
theorem FreadNeeds.replays {size nmemb : UInt32} (h : FreadNeeds device s size nmemb)
    (hs : s.SlotOk) :
    replay s.content [(fread device size nmemb s).1.event s (fread device size nmemb s).2] =
      some (fread device size nmemb s).2.content := by
  obtain ⟨-, bytes, hres, hlen, hcontent, hempty⟩ := fread_spec device size nmemb hs
  have hwhole : bytes.take (bytes.length / size.toNat * size.toNat) = bytes := by
    rw [Nat.div_mul_cancel (hlen ▸ h.whole), List.take_length]
  rw [hres]
  simp only [FreadResult.event, divide_of_ne_zero h.sized, Option.getD_some, hwhole]
  split_ifs with hnil
  · obtain ⟨rfl, hne⟩ := hnil
    have hslot : s.pushed = 0 := by
      rw [taken, List.length_nil] at hlen
      omega
    obtain ⟨hfail, hend⟩ := hempty hslot
    refine replay_endEvent hcontent.symm fun hsame => ?_
    have hread := hfail.mp hsame
    by_cases htotal : size * nmemb = 0
    · refine (h.wraps (fun hn => hne ?_) htotal).resolve_right hread
      rw [hn]
      exact Nat.mul_zero _
    · exact hend rfl (fun hn => htotal (UInt32.toNat_inj.mp hn)) hread
  · rw [hcontent]
    exact replay_delivered bytes _

/-- A call that does not ask the impossible of `fread` keeps the stream lossless. -/
theorem Lossless.step (ht : Lossless text t) (hslot : t.input.SlotOk) {c : StreamCall}
    (hc : FreadDefined device t c) :
    Lossless text (sessionStep device t c) ∧ (sessionStep device t c).input.SlotOk := by
  cases c with
  | getc =>
    obtain ⟨hslot', ⟨b, hb, hcontent⟩ | ⟨heof, hsame, hend⟩⟩ := getc_spec device hslot
    · refine ⟨⟨ht.replay_snoc ?_, ht.freads⟩, hslot'⟩
      rw [hb, if_neg (toNat_ne_eofValue b), byteOf_toNat, hcontent]
      exact replay_delivered [b] _
    · refine ⟨⟨ht.replay_snoc ?_, ht.freads⟩, hslot'⟩
      rw [if_pos heof]
      exact replay_endEvent hsame hend
  | ungetc c =>
    simp only [sessionStep, ungetc]
    obtain hempty | ⟨b, hb⟩ := hslot
    · have hneg : ¬ t.input.file.ungetc ≥ 0 := by omega
      simp only [if_neg hneg, if_neg (toNat_ne_eofValue c)]
      refine ⟨⟨ht.replay_snoc ?_, ht.freads⟩, .inr ⟨c, rfl⟩⟩
      rw [Input.content_of_empty hempty, Input.content_of_byte rfl]
      rfl
    · have hpos : t.input.file.ungetc ≥ 0 := by omega
      simp only [if_pos hpos, if_true, List.append_nil]
      exact ⟨ht, .inr ⟨b, hb⟩⟩
  | fgets size =>
    obtain ⟨hslot', ⟨bytes, hbytes, hcontent⟩ | ⟨-, hnull, hsame, hend⟩⟩ :=
      fgetsLoop_spec device (size - 1).toNat [] hslot
    · refine ⟨⟨ht.replay_snoc ?_, ht.freads⟩, hslot'⟩
      simp only [fgets, hbytes, List.nil_append]
      rw [hcontent]
      exact replay_delivered bytes _
    · refine ⟨⟨ht.replay_snoc ?_, ht.freads⟩, hslot'⟩
      simp only [fgets, hnull]
      exact replay_endEvent hsame hend
  | fread size nmemb =>
    have hslot' := (fread_spec device size nmemb hslot).1
    refine ⟨⟨ht.replay_snoc (hc.replays hslot), fun r hr => ?_⟩, hslot'⟩
    obtain hr | hr := List.mem_append.mp hr
    · exact ht.freads r hr
    · obtain rfl := List.mem_singleton.mp hr
      exact hc.ok hslot

/-- An `fread` that leaves what it has not handed on has handed on all it took, and reports
    the end only where it is. -/
theorem event_exact {r : FreadResult} {s s' : Input}
    (h : replay (r.stored ++ rest) [r.event s s'] = some rest) :
    r.stored.length ≤ r.returned.getD 0 * r.size.toNat ∧
      (r.stored = [] → r.size.toNat * r.nmemb.toNat ≠ 0 → s'.failures = s.failures →
        rest = []) := by
  unfold FreadResult.event at h
  dsimp only at h
  by_cases hend : r.stored.take (r.returned.getD 0 * r.size.toNat) = [] ∧
      r.size.toNat * r.nmemb.toNat ≠ 0
  · rw [if_pos hend, endEvent] at h
    have hsame : r.stored ++ rest = rest ∧ (s'.failures = s.failures → rest = []) := by
      split_ifs at h with hfail
      · simp only [replay] at h
        split_ifs at h with hnil
        exact ⟨Option.some.inj h, fun _ => (List.append_eq_nil_iff.mp hnil).2⟩
      · exact ⟨Option.some.inj h, fun h' => absurd h' hfail⟩
    have hnil : r.stored = [] := by simpa using hsame.1
    exact ⟨by simp [hnil], fun _ _ => hsame.2⟩
  · rw [if_neg hend] at h
    simp only [replay] at h
    split_ifs at h
    have hlen := congrArg List.length (Option.some.inj h)
    simp only [List.length_drop, List.length_append, List.length_take] at hlen
    exact ⟨by omega, fun hnil hne => absurd ⟨by simp [hnil], hne⟩ hend⟩

/-- An `fread` that loses nothing gets what it needs. -/
theorem freadDefined_of_lossless (ht : Lossless text t) (hslot : t.input.SlotOk) {c : StreamCall}
    (hafter : Lossless text (sessionStep device t c)) : FreadDefined device t c := by
  cases c with
  | fread size nmemb =>
    have hok : (fread device size nmemb t.input).1.Ok :=
      hafter.freads _ (List.mem_append_right _ (List.mem_singleton_self _))
    have hreplay := hafter.replays
    simp only [sessionStep] at hreplay
    rw [replay_append, ht.replays, Option.bind_some] at hreplay
    obtain ⟨-, bytes, hres, hlen, hcontent, hempty⟩ := fread_spec device size nmemb hslot
    rw [hres] at hok hreplay
    have hsize : size ≠ 0 := fun hzero => hok.divides (if_pos hzero)
    rw [hcontent] at hreplay
    obtain ⟨hle, hstop⟩ :=
      event_exact (r := ⟨size, nmemb, bytes, divide bytes.length size⟩) hreplay
    simp only [divide_of_ne_zero hsize, Option.getD_some] at hle
    have hwhole : size.toNat ∣ taken device size nmemb t.input := by
      rw [← hlen]
      exact Dvd.intro_left _ (le_antisymm (Nat.div_mul_le_self _ _) hle)
    refine ⟨hsize, fun hzero => ?_, hwhole, fun hne hwrap => ?_⟩
    · have hbound : bytes.length ≤ size.toNat * nmemb.toNat := hok.bound
      rw [hzero, show (0 : UInt32).toNat = 0 from rfl, Nat.mul_zero, hlen, taken] at hbound
      omega
    · have hread := delivers_le device ((size * nmemb).toNat - t.input.pushed) t.input
      rw [hwrap, show (0 : UInt32).toNat = 0 from rfl, Nat.zero_sub] at hread
      rw [taken, hwrap, show (0 : UInt32).toNat = 0 from rfl, Nat.zero_sub,
        Nat.le_zero.mp hread, Nat.add_zero] at hlen hwhole
      by_cases hp : t.input.pushed = 0
      · have hnil : bytes = [] := List.eq_nil_of_length_eq_zero (hlen.trans hp)
        by_cases hfail : device t.input.reads = none
        · exact .inr hfail
        · rw [hcontent, hnil]
          exact .inl (hstop hnil (toNat_mul_ne_zero hsize hne) ((hempty hp).1.mpr hfail))
      · -- the size of a request for single bytes does not wrap
        have hone : t.input.pushed = 1 := by
          unfold Input.pushed at hp ⊢
          split_ifs at hp ⊢ <;> omega
        rw [hone, Nat.dvd_one] at hwhole
        obtain rfl : size = 1 := UInt32.toNat_inj.mp hwhole
        exact absurd ((UInt32.one_mul nmemb).symm.trans hwrap) hne
  | _ => trivial

end Step

/-- **Reading loses nothing.** For every text, delivered in pieces of any length between
    reads that fail, and every sequence of calls, the caller sees the text in order with
    each byte pushed back delivered next and once, and every `fread` keeps to its request,
    in every state on the way if and only if every `fread` on the way gets what it needs. -/
theorem stream_lossless_iff (device : ℕ → Option ℕ) (text : List UInt8)
    (calls : List StreamCall) :
    (∀ done s, done <+: calls →
        Run (fun s c s' => sessionStep device s c = s') (openSession text) done s →
        Lossless text s) ↔
      ∀ done c s s', done ++ [c] <+: calls →
        Run (fun s c s' => sessionStep device s c = s') (openSession text) done s →
        sessionStep device s c = s' → FreadDefined device s c := by
  refine always_iff_of_invariant (I := fun s => Lossless text s ∧ s.input.SlotOk) ?_ ?_ ?_ ?_ calls
  · exact ⟨⟨rfl, by simp [openSession]⟩, .inl rfl⟩
  · intro s hs
    exact hs.1
  · rintro s c s' ⟨hs, hslot⟩ rfl hc
    exact hs.step hslot hc
  · rintro s c s' ⟨hs, hslot⟩ rfl hafter
    exact freadDefined_of_lossless hs hslot hafter

/-- With a byte pushed back, `fread(buf, 1, 0, f)` stores that byte and returns 1. Where
    `read` brings one byte, `fread(buf, 2, 1, f)` takes it and returns 0. Behind
    `fread(buf, 65536, 65536, f)`, which returns 0, nothing was read. `fread(buf, 0, 1, f)`
    divides by zero. -/
theorem fread_loses_bytes :
    (∃ s, Run (fun s c s' => sessionStep (fun _ => some 0) s c = s') (openSession [0x61, 0x62])
        [.getc, .ungetc 0x61, .fread 1 0] s ∧
      s.freads = [⟨1, 0, [0x61], some 1⟩] ∧ s.input.content = [0x62] ∧
      ¬ Lossless [0x61, 0x62] s) ∧
    (∃ s, Run (fun s c s' => sessionStep (fun _ => some 0) s c = s') (openSession [0x61, 0x62])
        [.fread 2 1] s ∧
      s.freads = [⟨2, 1, [0x61], some 0⟩] ∧ s.input.content = [0x62] ∧
      ¬ Lossless [0x61, 0x62] s) ∧
    (∃ s, Run (fun s c s' => sessionStep (fun _ => some 0) s c = s') (openSession [0x61, 0x62])
        [.fread 65536 65536] s ∧
      s.freads = [⟨65536, 65536, [], some 0⟩] ∧ s.input.file.eof = true ∧
      s.input.content = [0x61, 0x62] ∧ ¬ Lossless [0x61, 0x62] s) ∧
    (fread (fun _ => some 0) 0 1 (openSession [0x61, 0x62]).input).1.returned = none := by
  have hfreads : ([.getc, .ungetc 0x61, .fread 1 0].foldl (sessionStep fun _ => some 0)
      (openSession [0x61, 0x62])).freads = [⟨1, 0, [0x61], some 1⟩] := by rfl
  have hearly : ∀ {s : Session}, replay [0x61, 0x62] s.events = none →
      ¬ Lossless [0x61, 0x62] s := fun h hs => by
    rw [hs.replays] at h
    cases h
  refine ⟨⟨_, run_foldl _ _ _, hfreads, by rfl, fun hs => ?_⟩,
    ⟨_, run_foldl _ _ _, by rfl, by rfl, hearly (by rfl)⟩,
    ⟨_, run_foldl _ _ _, by rfl, by rfl, by rfl, hearly (by rfl)⟩, by rfl⟩
  have hok := hs.freads ⟨1, 0, [0x61], some 1⟩ (hfreads ▸ List.mem_singleton_self _)
  exact absurd hok.bound (by decide)

end Mboot.Libc
