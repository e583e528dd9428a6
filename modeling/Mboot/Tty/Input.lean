import Mboot.Tty.Model
import Mboot.Scheduler.Invariant
import Mboot.Common.Fifo

/-!
# Keyboard input of a terminal

Model of the input queue of `stage2/dev/tty.c` (lines 126–155 and 295–308) and
of any number of tasks that read it while keys arrive.

`tty_pop_input` tests the queue with interrupts disabled, enables them, and then
reads the byte and moves `input_tail` on. A tick between the two lets another
task pass the same test for the same key, so the test and the read are two steps
here. `socket_recvfrom` and `disk_lock` take what they have tested for before
they enable interrupts.

`pushed` and `returned` record, for each terminal, the keys the queue accepted
and the bytes the calls returned. `InOrder`: the bytes returned so far, followed
by what is in the queue, are the keys accepted so far. So every key is returned
at most once and in order, and nothing else is returned.

* `keys_in_order_iff`: a run stays in order exactly when every read finds a key,
  and it does if no task passes the test while another is between its test and
  its read.
* `two_readers_share_a_key`: two readers, one key, and a tick in the window.
-/

namespace Mboot.Tty

open Common Scheduler

/-! ## The queue -/

/-- `TTY_INPUT_SIZE` (tty.c line 9). -/
abbrev ttyInputSize : ℕ := 256

/-- `tty_push_input` (lines 128–134). -/
def ttyPushInput (t : Terminal) (c : UInt8) : Terminal :=
  let nextHead := (t.inputHead + 1) % ttyInputSize
  if nextHead = t.inputTail then t
  else { t with input := Function.update t.input t.inputHead c, inputHead := nextHead }

/-- `tty_has_input` (lines 136–138). -/
def ttyHasInput (t : Terminal) : Prop := t.inputHead ≠ t.inputTail

instance (t : Terminal) : Decidable (ttyHasInput t) := inferInstanceAs (Decidable (_ ≠ _))

/-- The end of `tty_pop_input` (lines 152–154), behind the test: the byte and
    the terminal. -/
def ttyTakeInput (t : Terminal) : UInt8 × Terminal :=
  (t.input t.inputTail, { t with inputTail := (t.inputTail + 1) % ttyInputSize })

/-- `tty_handle_key` (lines 295–308). `obj id` is the address of terminal `id`,
    the object its readers sleep on. -/
def ttyHandleKey (obj : ℤ → ℕ) (c : Console) (s : Sched) (scancode ascii : UInt8) :
    Option (Console × Sched) :=
  if c.ttyReady = false then some (c, s)
  else if 0x3B ≤ scancode ∧ scancode ≤ 0x3E then
    some (ttySwitch c ((scancode.toNat : ℤ) - 0x3B), s)
  else if ascii ≠ 0 then
    let c := c.setTty c.activeTty (ttyPushInput (c.ttys c.activeTty) ascii)
    (schedulerWake s (obj c.activeTty)).map fun s => (c, s)
  else some (c, s)

/-- The number of bytes from `input_tail` to `input_head`. -/
def inputCount (t : Terminal) : ℕ := (t.inputHead + ttyInputSize - t.inputTail) % ttyInputSize

/-- The bytes in the queue, oldest first. -/
def inputQueue (t : Terminal) : List UInt8 :=
  ringContents ttyInputSize (fun i => t.input i) t.inputTail (inputCount t)

/-- The indices are inside the buffer. -/
structure QueueOk (t : Terminal) : Prop where
  head_lt : t.inputHead < ttyInputSize
  tail_lt : t.inputTail < ttyInputSize

variable {t : Terminal}

theorem QueueOk.push (h : QueueOk t) (c : UInt8) : QueueOk (ttyPushInput t c) := by
  unfold ttyPushInput
  dsimp only
  split_ifs
  · exact h
  · exact ⟨Nat.mod_lt _ (by decide), h.tail_lt⟩

theorem QueueOk.take (h : QueueOk t) : QueueOk (ttyTakeInput t).2 :=
  ⟨h.head_lt, Nat.mod_lt _ (by decide)⟩

theorem inputCount_eq_zero (h : QueueOk t) : inputCount t = 0 ↔ t.inputHead = t.inputTail := by
  have h1 := h.head_lt
  have h2 := h.tail_lt
  unfold inputCount
  simp only [ttyInputSize] at h1 h2 ⊢
  omega

/-- The queue is empty exactly when the test fails. -/
theorem inputQueue_eq_nil (h : QueueOk t) : inputQueue t = [] ↔ ¬ ttyHasInput t := by
  rw [ttyHasInput, ne_eq, not_not, ← inputCount_eq_zero h, ← List.length_eq_zero_iff, inputQueue,
    length_ringContents]

/-- A key goes to the end of the queue, or is dropped because the queue is full,
    and then `input_head` stays. -/
theorem inputQueue_push (h : QueueOk t) (c : UInt8) :
    inputQueue (ttyPushInput t c) =
      if (ttyPushInput t c).inputHead = t.inputHead then inputQueue t else inputQueue t ++ [c] := by
  have h1 := h.head_lt
  have h2 := h.tail_lt
  unfold ttyPushInput
  dsimp only
  split_ifs with hfull hsame hsame
  · rfl
  · exact absurd rfl hsame
  · simp only [ttyInputSize] at h1 hsame
    omega
  · have hnext : inputCount { t with
        input := Function.update t.input t.inputHead c
        inputHead := (t.inputHead + 1) % ttyInputSize } = inputCount t + 1 := by
      unfold inputCount
      simp only [ttyInputSize] at h1 h2 hfull ⊢
      omega
    have hlast : (t.inputTail + inputCount t) % ttyInputSize = t.inputHead := by
      unfold inputCount
      simp only [ttyInputSize] at h1 h2 ⊢
      omega
    rw [inputQueue, hnext]
    refine ringContents_push ?_ ?_ ?_
    · unfold inputCount
      exact Nat.mod_lt _ (by decide)
    · rw [hlast]
      exact Function.update_self ..
    · intro k _ hk
      rw [hlast] at hk
      exact Function.update_of_ne (by exact_mod_cast hk) ..

/-- Behind a test that still holds, the oldest byte is taken. -/
theorem inputQueue_take (h : QueueOk t) (hin : ttyHasInput t) :
    inputQueue t = (ttyTakeInput t).1 :: inputQueue (ttyTakeInput t).2 := by
  have h1 := h.head_lt
  have h2 := h.tail_lt
  have hne : t.inputHead ≠ t.inputTail := hin
  have hcount : inputCount t = inputCount (ttyTakeInput t).2 + 1 := by
    unfold inputCount ttyTakeInput
    simp only [ttyInputSize] at h1 h2 ⊢
    omega
  rw [inputQueue, hcount]
  exact ringContents_pop h2

/-! ## A key -/

theorem ttySwitch_ttys (c : Console) (id : ℤ) : (ttySwitch c id).ttys = c.ttys := by
  unfold ttySwitch
  split_ifs <;> rfl

/-- What `tty_handle_key` does to the terminals; it then wakes the readers. -/
def Console.key (c : Console) (scancode ascii : UInt8) : Console :=
  if c.ttyReady = false then c
  else if 0x3B ≤ scancode ∧ scancode ≤ 0x3E then ttySwitch c ((scancode.toNat : ℤ) - 0x3B)
  else if ascii ≠ 0 then c.setTty c.activeTty (ttyPushInput (c.ttys c.activeTty) ascii)
  else c

theorem ttyHandleKey_console {obj : ℤ → ℕ} {c c' : Console} {d d' : Sched}
    {scancode ascii : UInt8} (h : ttyHandleKey obj c d scancode ascii = some (c', d')) :
    c' = c.key scancode ascii := by
  unfold ttyHandleKey at h
  unfold Console.key
  split_ifs at h ⊢
  · cases h
    rfl
  · cases h
    rfl
  · obtain ⟨_, -, heq⟩ := Option.map_eq_some_iff.mp h
    cases heq
    rfl
  · cases h
    rfl

/-- The key is typed at terminal `id`. -/
def Console.TypedAt (c : Console) (id : ℤ) (scancode ascii : UInt8) : Prop :=
  c.ttyReady = true ∧ ¬ (0x3B ≤ scancode ∧ scancode ≤ 0x3E) ∧ ascii ≠ 0 ∧ c.activeTty = id

instance (c : Console) (id : ℤ) (scancode ascii : UInt8) :
    Decidable (c.TypedAt id scancode ascii) := inferInstanceAs (Decidable (_ ∧ _))

theorem Console.key_ready (d : Console) (scancode ascii : UInt8) :
    (d.key scancode ascii).ttyReady = d.ttyReady := by
  unfold Console.key ttySwitch
  split_ifs <;> rfl

/-- A key reaches the terminal it is typed at, and no other. -/
theorem Console.key_ttys (d : Console) (id : ℤ) (scancode ascii : UInt8) :
    (d.key scancode ascii).ttys id =
      if d.TypedAt id scancode ascii then ttyPushInput (d.ttys id) ascii else d.ttys id := by
  unfold Console.key
  by_cases hready : d.ttyReady = true
  · rw [if_neg (by rw [hready]; decide)]
    by_cases hswitch : 0x3B ≤ scancode ∧ scancode ≤ 0x3E
    · rw [if_pos hswitch, ttySwitch_ttys, if_neg fun h : d.TypedAt .. => h.2.1 hswitch]
    · rw [if_neg hswitch]
      by_cases hascii : ascii = 0
      · rw [if_neg (not_not.mpr hascii), if_neg fun h : d.TypedAt .. => h.2.2.1 hascii]
      · rw [if_pos hascii]
        by_cases hid : d.activeTty = id
        · rw [if_pos (show d.TypedAt .. from ⟨hready, hswitch, hascii, hid⟩), hid]
          exact Function.update_self ..
        · rw [if_neg fun h : d.TypedAt .. => hid h.2.2.2]
          exact Function.update_of_ne (Ne.symm hid) ..
  · rw [if_pos (Bool.eq_false_of_not_eq_true hready), if_neg fun h : d.TypedAt .. => hready h.1]

/-! ## Readers and the keyboard -/

/-- Where a task is in `tty_pop_input` on terminal `id`. -/
inductive Reader
  | outside
  /-- before the test, asleep included -/
  | testing (id : ℤ)
  /-- between the test and the read -/
  | passed (id : ℤ)
  deriving DecidableEq

/-- The scheduler, the terminals, the places of the tasks, and the record. -/
structure InputState where
  sched : Sched
  console : Console
  reader : ℕ → Reader
  /-- the keys the queue of a terminal accepted -/
  pushed : ℤ → List UInt8
  /-- the bytes returned by the calls on a terminal, with the caller -/
  returned : ℤ → List (ℕ × UInt8)

inductive InputEvent
  /-- a tick or a signal at any time, or another call of a task that does not read -/
  | sched (e : Event)
  | key (scancode ascii : UInt8)
  /-- the current task calls `tty_pop_input` -/
  | call (id : ℤ)
  /-- one round of its loop; `frame` is where a sleep saves the registers -/
  | test (frame : ℕ)
  /-- the rest of the call -/
  | take

/-- The scheduler events that interrupt a task. -/
def IsInterrupt : Event → Prop
  | .tick _ | .wake _ => True
  | _ => False

instance : DecidablePred IsInterrupt
  | .tick _ | .wake _ => .isTrue trivial
  | .createTask .. | .createUserTask .. | .fork .. | .block .. | .exit _ | .taskExit =>
    .isFalse not_false

/-- The current task goes on at `r`. -/
def InputState.setReader (s : InputState) (t : ℕ) (r : Reader) : InputState :=
  { s with reader := Function.update s.reader t r }

/-- The current task returns a byte of terminal `id`. -/
def InputState.takeFrom (s : InputState) (id : ℤ) : InputState :=
  let (c, t) := ttyTakeInput (s.console.ttys id)
  { s with
    console := s.console.setTty id t
    reader := Function.update s.reader s.sched.currentTask .outside
    returned := Function.update s.returned id (s.returned id ++ [(s.sched.currentTask, c)]) }

/-- One step; `none` when it is not possible. -/
def InputState.step (obj : ℤ → ℕ) (s : InputState) : InputEvent → Option InputState
  | .sched e =>
    if IsInterrupt e ∨ s.reader s.sched.currentTask = .outside then
      (Scheduler.step s.sched e).map fun c => { s with sched := c }
    else none
  | .key scancode ascii =>
    (ttyHandleKey obj s.console s.sched scancode ascii).map fun (c, sched) =>
      { s with
        sched := sched, console := c
        -- the key was accepted where `input_head` has moved
        pushed := fun id =>
          if (c.ttys id).inputHead = (s.console.ttys id).inputHead then s.pushed id
          else s.pushed id ++ [ascii] }
  | .call id =>
    if s.reader s.sched.currentTask = .outside ∧ s.sched.currentTask ≠ s.sched.idleTask ∧
        ttyValid id then
      some (s.setReader s.sched.currentTask (.testing id))
    else none
  | .test frame =>
    match s.reader s.sched.currentTask with
    | .testing id =>
      if ttyHasInput (s.console.ttys id) then some (s.setReader s.sched.currentTask (.passed id))
      else (schedulerBlock s.sched (obj id) frame).map fun c => { s with sched := c }
    | _ => none
  | .take =>
    match s.reader s.sched.currentTask with
    | .passed id => some (s.takeFrom id)
    | _ => none

/-- Every terminal is as `tty_init` leaves it, and nobody reads. -/
structure InputState.Fresh (s : InputState) : Prop where
  reader : ∀ t, s.reader t = .outside
  head : ∀ id, ttyValid id → (s.console.ttys id).inputHead = 0
  tail : ∀ id, ttyValid id → (s.console.ttys id).inputTail = 0
  pushed : ∀ id, s.pushed id = []
  returned : ∀ id, s.returned id = []

/-- The bytes returned on terminal `id` and then its queue are the keys it
    accepted. -/
def InOrder (s : InputState) (id : ℤ) : Prop :=
  (s.returned id).map Prod.snd ++ inputQueue (s.console.ttys id) = s.pushed id

instance (s : InputState) (id : ℤ) : Decidable (InOrder s id) :=
  inferInstanceAs (Decidable (_ = _))

/-- A read finds a key. -/
def FindsKey (s : InputState) : InputEvent → Prop
  | .take => ∀ id, s.reader s.sched.currentTask = .passed id → ttyHasInput (s.console.ttys id)
  | _ => True

/-- No task passes the test while another is between its test and its read. -/
def Alone (s : InputState) : InputEvent → Prop
  | .test _ => ∀ id, s.reader s.sched.currentTask = .testing id →
      ttyHasInput (s.console.ttys id) → ∀ u, s.reader u ≠ .passed id
  | _ => True

/-! ## One step -/

variable {obj : ℤ → ℕ} {s s' : InputState} {a : InputEvent} {id : ℤ}

/-- What a step can do. A key changes no more than the queue of one terminal,
    and leaves the others' indices alone. -/
inductive InputEffect (s : InputState) : InputEvent → InputState → Prop
  | sched (e : Event) (c : Sched) : InputEffect s (.sched e) { s with sched := c }
  | key (scancode ascii : UInt8) (c : Console) (d : Sched) (pushed : ℤ → List UInt8)
      (hqueue : ∀ id, QueueOk (s.console.ttys id) → QueueOk (c.ttys id) ∧
        ∃ new, inputQueue (c.ttys id) = inputQueue (s.console.ttys id) ++ new ∧
          pushed id = s.pushed id ++ new) :
      InputEffect s (.key scancode ascii) { s with sched := d, console := c, pushed := pushed }
  | call (id : ℤ) (hid : ttyValid id) :
      InputEffect s (.call id) (s.setReader s.sched.currentTask (.testing id))
  | pass (frame : ℕ) (id : ℤ) (hr : s.reader s.sched.currentTask = .testing id)
      (hin : ttyHasInput (s.console.ttys id)) :
      InputEffect s (.test frame) (s.setReader s.sched.currentTask (.passed id))
  | sleep (frame : ℕ) (c : Sched) : InputEffect s (.test frame) { s with sched := c }
  | take (id : ℤ) (hr : s.reader s.sched.currentTask = .passed id) :
      InputEffect s .take (s.takeFrom id)

/-- A key press appends to a queue whose `input_head` it moves, and leaves the
    other queues alone. -/
theorem ttyHandleKey_queue {c c' : Console} {d d' : Sched} {scancode ascii : UInt8}
    (h : ttyHandleKey obj c d scancode ascii = some (c', d')) (hok : QueueOk (c.ttys id)) :
    QueueOk (c'.ttys id) ∧
      inputQueue (c'.ttys id) =
        if (c'.ttys id).inputHead = (c.ttys id).inputHead then inputQueue (c.ttys id)
        else inputQueue (c.ttys id) ++ [ascii] := by
  rw [ttyHandleKey_console h, Console.key_ttys]
  split_ifs with htyped hsame
  · exact ⟨hok.push ascii, by rw [inputQueue_push hok, if_pos hsame]⟩
  · exact ⟨hok.push ascii, by rw [inputQueue_push hok, if_neg hsame]⟩
  · exact ⟨hok, rfl⟩
  · next hne => exact absurd rfl hne

theorem InputState.step_effect (hs : s.step obj a = some s') : InputEffect s a s' := by
  cases a with
  | sched e =>
    simp only [InputState.step] at hs
    split_ifs at hs
    obtain ⟨c, -, rfl⟩ := Option.map_eq_some_iff.mp hs
    exact .sched e c
  | key scancode ascii =>
    obtain ⟨⟨c, d⟩, hkey, rfl⟩ := Option.map_eq_some_iff.mp hs
    refine .key scancode ascii c d _ fun id hok => ?_
    obtain ⟨hok', hqueue⟩ := ttyHandleKey_queue hkey hok
    rw [hqueue]
    split_ifs
    · exact ⟨hok', [], (List.append_nil _).symm, (List.append_nil _).symm⟩
    · exact ⟨hok', [ascii], rfl, rfl⟩
  | call id =>
    simp only [InputState.step] at hs
    split_ifs at hs with hc
    cases hs
    exact .call id hc.2.2
  | test frame =>
    simp only [InputState.step] at hs
    split at hs
    · next id hr =>
      split_ifs at hs with hin
      · cases hs
        exact .pass frame id hr hin
      · obtain ⟨c, -, rfl⟩ := Option.map_eq_some_iff.mp hs
        exact .sleep frame c
    · cases hs
  | take =>
    simp only [InputState.step] at hs
    split at hs
    · next id hr =>
      cases hs
      exact .take id hr
    · cases hs

/-! ## The invariants -/

/-- Readers are on terminals that exist, and the indices are inside the buffers. -/
structure InputOk (s : InputState) : Prop where
  valid : ∀ t id, s.reader t = .passed id ∨ s.reader t = .testing id → ttyValid id
  queue : ∀ id, ttyValid id → QueueOk (s.console.ttys id)

theorem InputState.Fresh.inputOk (h : s.Fresh) : InputOk s := by
  refine ⟨fun t id hr => ?_, fun id hid => ⟨?_, ?_⟩⟩
  · rw [h.reader t] at hr
    rcases hr with hr | hr <;> cases hr
  · rw [h.head id hid]
    decide
  · rw [h.tail id hid]
    decide

theorem InputState.Fresh.inOrder (h : s.Fresh) (hid : ttyValid id) : InOrder s id := by
  have hempty : inputQueue (s.console.ttys id) = [] := by
    rw [inputQueue_eq_nil (h.inputOk.queue id hid), ttyHasInput, h.head id hid, h.tail id hid]
    exact fun hne => hne rfl
  rw [InOrder, hempty, h.returned id, h.pushed id]
  rfl

/-- A task goes to a place on a terminal that exists. -/
theorem InputOk.setReader (h : InputOk s) (t : ℕ) {r : Reader}
    (hr : ∀ id, r = .passed id ∨ r = .testing id → ttyValid id) : InputOk (s.setReader t r) := by
  refine ⟨fun u id hu => ?_, h.queue⟩
  simp only [InputState.setReader] at hu
  by_cases hut : u = t
  · subst hut
    rw [Function.update_self] at hu
    exact hr id hu
  · rw [Function.update_of_ne hut] at hu
    exact h.valid u id hu

theorem InputOk.step (h : InputOk s) (he : InputEffect s a s') : InputOk s' := by
  cases he with
  | sched e c => exact ⟨h.valid, h.queue⟩
  | key scancode ascii c d pushed hqueue =>
    exact ⟨h.valid, fun id hid => (hqueue id (h.queue id hid)).1⟩
  | call id hid =>
    refine h.setReader _ fun id' hr => ?_
    rcases hr with hr | hr <;> cases hr
    exact hid
  | pass frame id hr hin =>
    refine h.setReader _ fun id' hr' => ?_
    rcases hr' with hr' | hr' <;> cases hr'
    exact h.valid _ id (.inr hr)
  | sleep frame c => exact ⟨h.valid, h.queue⟩
  | take id hr =>
    have hleft : InputOk (s.setReader s.sched.currentTask .outside) :=
      h.setReader _ fun id' hr' => by rcases hr' with hr' | hr' <;> cases hr'
    refine ⟨hleft.valid, fun id' hid' => ?_⟩
    · show QueueOk (Function.update s.console.ttys id _ id')
      by_cases heq : id' = id
      · subst heq
        rw [Function.update_self]
        exact (h.queue id' hid').take
      · rw [Function.update_of_ne heq]
        exact h.queue id' hid'

/-- The record of terminal `id` after a read from terminal `id'`. -/
theorem inOrder_take {id' : ℤ} :
    InOrder (s.takeFrom id') id ↔
      if id = id' then
        (s.returned id).map Prod.snd ++ (ttyTakeInput (s.console.ttys id)).1 ::
          inputQueue (ttyTakeInput (s.console.ttys id)).2 = s.pushed id
      else InOrder s id := by
  unfold InOrder InputState.takeFrom Console.setTty
  dsimp only
  split_ifs with heq
  · subst heq
    rw [Function.update_self, Function.update_self, List.map_append, List.append_assoc]
    rfl
  · rw [Function.update_of_ne heq, Function.update_of_ne heq]

/-- A step that takes no byte from an empty queue keeps the order. -/
theorem InOrder.step (h : InOrder s id) (hok : InputOk s) (hid : ttyValid id)
    (hfind : FindsKey s a) (he : InputEffect s a s') : InOrder s' id := by
  cases he with
  | sched e c => exact h
  | key scancode ascii c d pushed hqueue =>
    obtain ⟨-, new, hnew, hpushed⟩ := hqueue id (hok.queue id hid)
    show (s.returned id).map Prod.snd ++ inputQueue (c.ttys id) = pushed id
    rw [hnew, hpushed, ← List.append_assoc, show _ = _ from h]
  | call _ _ | pass _ _ _ _ | sleep _ _ => exact h
  | take id' hr =>
    rw [inOrder_take]
    split_ifs with heq
    · subst heq
      rw [← inputQueue_take (hok.queue id hid) (hfind id hr)]
      exact h
    · exact h

/-- A byte taken from an empty queue is one more than were accepted. -/
theorem InOrder.not_take (h : InOrder s id) (hok : InputOk s)
    (hr : s.reader s.sched.currentTask = .passed id) (hempty : ¬ ttyHasInput (s.console.ttys id))
    (he : InputEffect s .take s') : ¬ InOrder s' id := by
  have hid := hok.valid _ id (.inl hr)
  cases he with
  | take id' hr' =>
    rw [hr] at hr'
    cases hr'
    rw [inOrder_take, if_pos rfl]
    intro h'
    rw [InOrder, (inputQueue_eq_nil (hok.queue id hid)).mpr hempty, List.append_nil] at h
    have hlen := congrArg List.length (h.trans h'.symm)
    simp only [List.length_append, List.length_cons] at hlen
    omega

/-- Whoever is between its test and its read is alone there and has a key. -/
def Undisturbed (s : InputState) : Prop :=
  ∀ t id, s.reader t = .passed id →
    ttyHasInput (s.console.ttys id) ∧ ∀ u, s.reader u = .passed id → u = t

theorem Undisturbed.setReader (h : Undisturbed s) {t : ℕ} {r : Reader}
    (hr : ∀ id, r = .passed id → ttyHasInput (s.console.ttys id) ∧ ∀ u, s.reader u ≠ .passed id) :
    Undisturbed (s.setReader t r) := by
  intro u id hu
  simp only [InputState.setReader] at hu ⊢
  by_cases hut : u = t
  · subst hut
    rw [Function.update_self] at hu
    refine ⟨(hr id hu).1, fun v hv => ?_⟩
    by_contra hvu
    rw [Function.update_of_ne hvu] at hv
    exact (hr id hu).2 v hv
  · rw [Function.update_of_ne hut] at hu
    refine ⟨(h u id hu).1, fun v hv => ?_⟩
    by_cases hvt : v = t
    · subst hvt
      rw [Function.update_self] at hv
      exact absurd hu ((hr id hv).2 u)
    · rw [Function.update_of_ne hvt] at hv
      exact (h u id hu).2 v hv

theorem Undisturbed.step (h : Undisturbed s) (hok : InputOk s) (halone : Alone s a)
    (he : InputEffect s a s') : Undisturbed s' := by
  cases he with
  | sched e c => exact h
  | key scancode ascii c d pushed hqueue =>
    intro t id hr
    obtain ⟨hin, honly⟩ := h t id hr
    have hq := hok.queue id (hok.valid t id (.inl hr))
    obtain ⟨hq', new, hnew, -⟩ := hqueue id hq
    refine ⟨?_, honly⟩
    by_contra hempty
    rw [(inputQueue_eq_nil hq').mpr hempty] at hnew
    exact (inputQueue_eq_nil hq).mp (List.append_eq_nil_iff.mp hnew.symm).1 hin
  | call id hid => exact h.setReader fun id' hr => by cases hr
  | pass frame id hr hin =>
    refine h.setReader fun id' hr' => ?_
    cases hr'
    exact ⟨hin, halone id hr hin⟩
  | sleep frame c => exact h
  | take id hr =>
    intro t id' hr'
    simp only [InputState.takeFrom] at hr' ⊢
    by_cases ht : t = s.sched.currentTask
    · rw [ht, Function.update_self] at hr'
      cases hr'
    rw [Function.update_of_ne ht] at hr'
    -- the reader that leaves was alone on its terminal
    have hne : id' ≠ id := by
      rintro rfl
      exact ht ((h _ id' hr).2 t hr')
    obtain ⟨hin, honly⟩ := h t id' hr'
    refine ⟨?_, fun u hu => ?_⟩
    · show ttyHasInput (Function.update s.console.ttys id _ id')
      rw [Function.update_of_ne hne]
      exact hin
    · by_cases hut : u = s.sched.currentTask
      · rw [hut, Function.update_self] at hu
        cases hu
      · rw [Function.update_of_ne hut] at hu
        exact honly u hu

theorem Undisturbed.findsKey (h : Undisturbed s) (a : InputEvent) : FindsKey s a := by
  cases a with
  | take => exact fun id hr => (h _ id hr).1
  | _ => trivial

/-! ## Runs -/

variable {s₀ : InputState} {as : List InputEvent}

theorem InputState.Fresh.run_inputOk (h : s₀.Fresh)
    (hrun : Run (Steps (InputState.step obj)) s₀ as s) : InputOk s :=
  hrun.invariant h.inputOk fun _ _ _ hu hs => hu.step (InputState.step_effect hs)

/-- **When readers get the keys in order.** From fresh terminals, by any tasks and
    the keyboard: every terminal is in order in every run in which no task passes the
    test of `tty_pop_input` while another is between its test and its read. Of the
    other runs, those are in order on the way in which every read finds a key. -/
theorem keys_in_order_iff (h : s₀.Fresh) :
    (∀ as, (∀ bs s, bs <+: as → Run (Steps (InputState.step obj)) s₀ bs s →
        ∀ id, ttyValid id → InOrder s id) ↔
      ∀ bs a s s', bs ++ [a] <+: as → Run (Steps (InputState.step obj)) s₀ bs s →
        s.step obj a = some s' → FindsKey s a) ∧
    ∀ s, Reachable (restrict (Steps (InputState.step obj)) Alone) s₀ s →
      ∀ id, ttyValid id → InOrder s id := by
  refine ⟨always_iff (fun id hid => h.inOrder hid) fun bs s a s' hrun hord hs => ?_,
    fun s hrun id hid => ?_⟩
  · have hok := h.run_inputOk hrun
    have he := InputState.step_effect hs
    refine ⟨fun hord' => ?_, fun hfind id hid => (hord id hid).step hok hid hfind he⟩
    cases a with
    | take =>
      intro id hr
      by_contra hempty
      have hid := hok.valid _ id (.inl hr)
      exact (hord id hid).not_take hok hr hempty he (hord' id hid)
    | _ => trivial
  · have hinv : InputOk s ∧ Undisturbed s ∧ InOrder s id := by
      apply hrun.invariant (P := fun s => InputOk s ∧ Undisturbed s ∧ InOrder s id)
      · refine ⟨h.inputOk, fun t id hr => ?_, h.inOrder hid⟩
        rw [h.reader t] at hr
        cases hr
      · rintro u a v ⟨hok, hund, hord⟩ ⟨halone, hs⟩
        have he := InputState.step_effect hs
        exact ⟨hok.step he, hund.step hok halone he, hord.step hok hid (hund.findsKey a) he⟩
    exact hinv.2.2

/-! ## Two readers -/

/-- The idle task and two tasks, and terminals that have just been cleared. -/
def twoTasks : InputState where
  sched := createTask (createTask (schedulerInit 0 fun _ => -1) 0 4096 fun _ => -1) 0 4096 fun _ => -1
  console := ttyInit
    { ttys := fun _ => ⟨fun _ => 0, 0, 0, fun _ => 0, 0, 0, fun _ => 0, 0, 0⟩
      activeTty := 0, ttyReady := false, earlyX := 0, earlyY := 0, vga := fun _ => 0, cursor := 0 }
    fun _ => ⟨fun _ => 0, 0, 0, fun _ => 0, 0, 0, fun _ => 0, 0, 0⟩
  reader := fun _ => .outside
  pushed := fun _ => []
  returned := fun _ => []

theorem twoTasks_fresh : twoTasks.Fresh := by
  have htty : ∀ id, ttyValid id → twoTasks.console.ttys id = ttyClear
      ⟨fun _ => 0, 0, 0, fun _ => 0, 0, 0, fun _ => 0, 0, 0⟩ := fun id hid => if_pos hid
  refine ⟨fun _ => rfl, fun id hid => ?_, fun id hid => ?_, fun _ => rfl, fun _ => rfl⟩
  · rw [htty id hid]
    rfl
  · rw [htty id hid]
    rfl

/-- Terminal `id` is at this address. -/
def ttyAddress (id : ℤ) : ℕ := 0x200000 + 0x2000 * id.toNat

/-- Two tasks sleep on the terminal; a key wakes both. Task 2 passes the test and
    is interrupted; task 1 passes it and takes the key; task 2 goes on. -/
def tickBeforeRead : List InputEvent :=
  [.sched (.tick 0), .call 0, .test 0, .call 0, .test 0, .key 0x1E 0x61, .sched (.tick 0), .test 0,
    .sched (.tick 0), .test 0, .take, .sched (.tick 0), .sched (.tick 0), .take]

/-- A task reads a key that was there before its call. -/
theorem keys_in_order_iff_one_reader :
    ∃ s, Reachable (restrict (Steps (InputState.step ttyAddress)) Alone) twoTasks s ∧
      s.returned 0 = [(2, 0x61)] ∧ InOrder s 0 := by
  have h₀ : Run (restrict (Steps (InputState.step ttyAddress)) Alone) twoTasks [] twoTasks :=
    Run.nil _
  have h₁ := h₀.snoc (a := InputEvent.key 0x1E 0x61) ⟨trivial, rfl⟩
  have h₂ := h₁.snoc (a := InputEvent.sched (.tick 0)) ⟨trivial, rfl⟩
  have h₃ := h₂.snoc (a := InputEvent.call 0) ⟨trivial, rfl⟩
  have h₄ := h₃.snoc (a := InputEvent.test 0) ⟨?_, rfl⟩
  · have h₅ := h₄.snoc (a := InputEvent.take) ⟨trivial, rfl⟩
    exact ⟨_, ⟨_, h₅⟩, rfl, (keys_in_order_iff twoTasks_fresh).2 _ ⟨_, h₅⟩ 0 (by decide)⟩
  · intro id _ _ u hu
    have hreader : Function.update (fun _ => Reader.outside) 2 (.testing 0) u = .passed id := hu
    by_cases h2 : u = 2
    · rw [h2, Function.update_self] at hreader
      cases hreader
    · rw [Function.update_of_ne h2] at hreader
      cases hreader

/-- **Two readers share a key.** One key was pressed and two calls have returned:
    the second one returned a byte nobody typed, and `input_tail` is one past
    `input_head`, which makes the other 255 slots of the buffer look like input. -/
theorem two_readers_share_a_key :
    ∃ s, Run (Steps (InputState.step ttyAddress)) twoTasks tickBeforeRead s ∧
      s.pushed 0 = [0x61] ∧ s.returned 0 = [(1, 0x61), (2, 0)] ∧
      (s.console.ttys 0).inputHead = 1 ∧ (s.console.ttys 0).inputTail = 2 ∧
      inputCount (s.console.ttys 0) = 255 ∧ ¬ InOrder s 0 :=
  exists_run (by decide +kernel)

end Mboot.Tty
