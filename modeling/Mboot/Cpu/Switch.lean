import Mboot.Cpu.Model

/-!
# Switching tasks is transparent

On the CPU of `Mboot.Cpu.Model`, tasks lose the CPU to timer interrupts and in
`scheduler_block`, and get it back when the scheduler picks them. `Machine.registers`
gives every task a register file of its own: the CPU's registers for the current task,
the saved frame for every other.

* `Inv`: the stacks of the tasks lie apart, the frame of every task that is not running
  lies in its stack, and `CR3` holds the directory of the current task.
* `step_spec`: an event that can happen ends, keeps `Inv`, and changes no register file
  but the current task's, in the way `Machine.registersAfter` says.
* `task_resumes_with_its_registers`: whatever happens between, a task goes on with
  exactly the registers it was interrupted with, after `scheduler_block` with those of a
  return from `scheduler_switch`, and under its own page directory.
-/

namespace Mboot.Cpu

open Common Scheduler

/-! ## Frames -/

theorem savedWord_eq {m : ℕ → UInt8} {r k : ℕ} {ws : List ℕ} {x : UInt32} (h : WordsAt 4 m r ws)
    (hk : ws[k]? = some x.toNat) : savedWord m r k = x := by
  have hlt : k < ws.length := (List.getElem?_eq_some_iff.mp hk).1
  have hmod : x.toNat % 256 ^ 4 = x.toNat := Nat.mod_eq_of_lt x.toNat_lt
  rw [savedWord, h k hlt, List.getD_eq_getElem?_getD, hk, Option.getD_some, hmod,
    UInt32.ofNat_toNat]

/-- Popping a frame that an interrupt pushed gives the registers back. -/
theorem popFrame_of_words {m : ℕ → UInt8} {r n : ℕ} {c : Regs} {old : List ℕ}
    (h : WordsAt 4 m r ((interruptWords c n).reverse ++ old))
    (hesp : r + frameSize = c.esp.toNat) : popFrame m r = c := by
  unfold popFrame
  rw [hesp, UInt32.ofNat_toNat, savedWord_eq (x := c.edi) h rfl, savedWord_eq (x := c.esi) h rfl,
    savedWord_eq (x := c.ebp) h rfl, savedWord_eq (x := c.edx) h rfl,
    savedWord_eq (x := c.ecx) h rfl, savedWord_eq (x := c.ebx) h rfl,
    savedWord_eq (x := c.eax) h rfl, savedWord_eq (x := c.eip) h rfl,
    savedWord_eq (x := c.cs) h rfl, savedWord_eq (x := c.eflags) h rfl]

theorem popFrame_congr {m m' : ℕ → UInt8} {r : ℕ}
    (h : ∀ x, r ≤ x → x < r + frameSize → m' x = m x) : popFrame m' r = popFrame m r := by
  have hword : ∀ k < 12, savedWord m' r k = savedWord m r k := by
    intro k hk
    rw [savedWord, savedWord, load_congr fun i hi =>
      h _ (by omega) (by simp only [frameSize]; omega)]
  unfold popFrame
  rw [hword 0 (by omega), hword 1 (by omega), hword 2 (by omega), hword 3 (by omega),
    hword 4 (by omega), hword 5 (by omega), hword 6 (by omega), hword 9 (by omega),
    hword 10 (by omega), hword 11 (by omega)]

/-- The registers with which a call of `scheduler_switch` returns to `ra`: the return
    address is also left in `ecx`, and interrupts are enabled. -/
def returned (c : Regs) (ra : UInt32) : Regs :=
  { c with ecx := ra, eip := ra, cs := gdtCodeSeg, eflags := c.eflags ||| 0x200, esp := c.esp + 4 }

/-- The frame of `scheduler_switch` is the one an interrupt right after the return would
    have pushed. -/
theorem switchWords_eq (c : Regs) (ra : UInt32) :
    switchWords c ra = interruptWords (returned c ra) 0 := rfl

/-- The registers with which a new task starts at `eip`, with its stack at `esp`. -/
def entryRegs (eip esp : UInt32) : Regs where
  edi := 0
  esi := 0
  ebp := 0
  edx := 0
  ecx := 0
  ebx := 0
  eax := 0
  eip := eip
  cs := gdtCodeSeg
  eflags := 0x202
  esp := esp

/-! ## Frames in memory -/

section Push

variable {m m' : ℕ → UInt8} {sp n : ℕ} {c : Regs}

theorem length_interruptWords (c : Regs) (n : ℕ) : 4 * (interruptWords c n).length = frameSize :=
  rfl

/-- A frame that was pushed and left alone is popped as it was. -/
theorem popFrame_pushed (hroom : frameSize ≤ sp) (hesp : c.esp.toNat = sp)
    (hkeep : ∀ x, sp - frameSize ≤ x → x < sp → m' x = pushAll 4 m sp (interruptWords c n) x) :
    popFrame m' (sp - frameSize) = c := by
  have hwords := pushAll_words (interruptWords c n) (by rwa [length_interruptWords])
    (WordsAt.nil 4 m sp)
  rw [length_interruptWords] at hwords
  rw [popFrame_congr (m := pushAll 4 m sp (interruptWords c n)) fun x h1 h2 =>
    hkeep x h1 (by omega)]
  exact popFrame_of_words hwords (by omega)

theorem pushAll_frame_of_outside {x : ℕ} (hroom : frameSize ≤ sp)
    (h : x < sp - frameSize ∨ sp ≤ x) : pushAll 4 m sp (interruptWords c n) x = m x :=
  pushAll_of_outside m (by rwa [length_interruptWords]) (by rwa [length_interruptWords])

end Push

/-! ## What the scheduler does to the blocks -/

/-- The tasks, their stacks and their directories are the same. -/
structure SameStacks (s s' : Sched) : Prop where
  count : s'.count = s.count
  idle : s'.idleTask = s.idleTask
  stackBase : ∀ t, (s'.tcb t).stackBase = (s.tcb t).stackBase
  cr3 : ∀ t, (s'.tcb t).cr3 = (s.tcb t).cr3

/-- No two stacks overlap. -/
def Apart (boot : ℕ) (s : Sched) : Prop :=
  ∀ t < s.count, ∀ u < s.count, t ≠ u →
    stackTop s t ≤ stackLow boot s u ∨ stackTop s u ≤ stackLow boot s t

section Stacks

variable {s s' : Sched} {boot : ℕ} (h : SameStacks s s')
include h

theorem SameStacks.low (t : ℕ) : stackLow boot s' t = stackLow boot s t := by
  rw [stackLow, stackLow, h.idle, h.stackBase]

theorem SameStacks.top (t : ℕ) : stackTop s' t = stackTop s t := by
  rw [stackTop, stackTop, h.idle, h.stackBase]

theorem SameStacks.apart (hs : Apart boot s) : Apart boot s' := by
  simpa only [Apart, h.low, h.top, h.count] using hs

end Stacks

/-- The scheduler changed nothing that concerns frames, stacks and directories. -/
structure SameTasks (s s' : Sched) : Prop extends SameStacks s s' where
  current : s'.currentTask = s.currentTask
  active : s'.cr3 = s.cr3
  esp : ∀ t, (s'.tcb t).esp = (s.tcb t).esp

theorem SameTasks.refl (s : Sched) : SameTasks s s :=
  ⟨⟨rfl, rfl, fun _ => rfl, fun _ => rfl⟩, rfl, rfl, fun _ => rfl⟩

theorem SameTasks.trans {s s' s'' : Sched} (h : SameTasks s s') (h' : SameTasks s' s'') :
    SameTasks s s'' :=
  ⟨⟨h'.count.trans h.count, h'.idle.trans h.idle, fun t => (h'.stackBase t).trans (h.stackBase t),
    fun t => (h'.cr3 t).trans (h.cr3 t)⟩, h'.current.trans h.current, h'.active.trans h.active,
    fun t => (h'.esp t).trans (h.esp t)⟩

theorem SameTasks.wakeAll (s : Sched) (o : ℕ) : SameTasks s (wakeAll s o) := by
  have hfield : ∀ {β : Type} (f : Tcb → β), (∀ b : Tcb, f (wakeTcb o b) = f b) → ∀ t,
      f ((Scheduler.wakeAll s o).tcb t) = f (s.tcb t) := by
    intro β f hf t
    simp only [Scheduler.wakeAll]
    split_ifs
    · exact hf _
    · rfl
  refine ⟨⟨rfl, rfl, hfield Tcb.stackBase ?_, hfield Tcb.cr3 ?_⟩, rfl, rfl, hfield Tcb.esp ?_⟩
  all_goals
    intro b
    unfold wakeTcb
    split_ifs <;> rfl

theorem SameTasks.wake {s s' : Sched} {o : ℕ} (h : RingOk s) (hs : schedulerWake s o = some s') :
    SameTasks s s' := by
  obtain ⟨-, rfl⟩ | ⟨-, rfl⟩ := schedulerWake_cases h hs
  · exact SameTasks.refl _
  · exact SameTasks.wakeAll s o

theorem SameTasks.markExited {s s' : Sched} {c : ℤ} (h : SchedInv s)
    (hi : s.currentTask ≠ s.idleTask) (hs : markExited s c = some s') : SameTasks s s' := by
  have hexited : SameTasks s (exitedCurrent s c) :=
    ⟨⟨rfl, rfl, Sched.setTcb_field Tcb.stackBase rfl, Sched.setTcb_field Tcb.cr3 rfl⟩, rfl, rfl,
      Sched.setTcb_field Tcb.esp rfl⟩
  rw [markExited_eq] at hs
  exact hexited.trans (SameTasks.wake (h.exitedCurrent hi c).ring hs)

/-- The current task was saved with its frame at `r`, and a task was given the CPU. -/
structure Switched (s s' : Sched) (r : ℕ) : Prop extends SameStacks s s' where
  esp : ∀ t, (s'.tcb t).esp = if t = s.currentTask then r else (s.tcb t).esp
  active : s'.cr3 = s'.current.cr3

/-- `scheduler_schedule` loads `CR3` with the directory of the task it chose. -/
theorem switchTo_cr3 (s : Sched) (u : ℕ) : (switchTo s u).cr3 = (switchTo s u).current.cr3 := by
  have key : ∀ s' : Sched, (if s'.current.cr3 ≠ s'.cr3 then { s' with cr3 := s'.current.cr3 }
      else s').cr3 = (if s'.current.cr3 ≠ s'.cr3 then { s' with cr3 := s'.current.cr3 }
      else s').current.cr3 := by
    intro s'
    split_ifs with h
    · rfl
    · exact (not_not.mp h).symm
  exact key _

theorem switchTo_field {β : Type*} (field : Tcb → β)
    (h : ∀ b : Tcb, field { b with state := .running } = field b) (s : Sched) (u t : ℕ) :
    field ((switchTo s u).tcb t) = field (s.tcb t) := by
  rw [switchTo_tcb]
  split_ifs
  · exact h _
  · rfl

/-- Saving a frame in the block of the current task, with whatever state, and then
    choosing a task. -/
theorem Switched.of_saved {s s' : Sched} (b : Tcb) (hbase : b.stackBase = s.current.stackBase)
    (hcr3 : b.cr3 = s.current.cr3) (h : PreSchedule (s.setTcb s.currentTask b))
    (hs : schedulerSchedule (s.setTcb s.currentTask b) = some s') : Switched s s' b.esp := by
  obtain ⟨u, hu, -⟩ := h.schedule
  rw [hu] at hs
  cases hs
  refine ⟨⟨switchTo_count _ _, switchTo_idleTask _ _, ?_, ?_⟩, ?_, switchTo_cr3 _ _⟩
  · intro t
    rw [switchTo_field Tcb.stackBase fun _ => rfl]
    exact Sched.setTcb_field Tcb.stackBase hbase t
  · intro t
    rw [switchTo_field Tcb.cr3 fun _ => rfl]
    exact Sched.setTcb_field Tcb.cr3 hcr3 t
  · intro t
    rw [switchTo_field Tcb.esp fun _ => rfl]
    by_cases ht : t = s.currentTask
    · rw [ht, if_pos rfl, Sched.setTcb_tcb_self]
    · rw [if_neg ht, Sched.setTcb_tcb_of_ne _ _ ht]

theorem Switched.tick {s : Sched} (h : SchedInv s) (r : ℕ) :
    ∃ s', schedulerTick s r = some s' ∧ SchedInv s' ∧ Switched s s' r := by
  obtain ⟨u, hu, -, -, hinv⟩ := (h.preempt r).schedule
  exact ⟨_, hu, hinv, Switched.of_saved { s.current with esp := r, state := _ } rfl rfl
    (h.preempt r) hu⟩

theorem Switched.block {s : Sched} (h : SchedInv s) (hi : s.currentTask ≠ s.idleTask) (o r : ℕ) :
    ∃ s', schedulerBlock s o r = some s' ∧ SchedInv s' ∧ Switched s s' r := by
  obtain ⟨u, hu, -, -, hinv⟩ := (h.blockCurrent hi o r).schedule
  refine ⟨_, ?_, hinv, Switched.of_saved
    { s.current with esp := r, waitObj := o, state := .blocked } rfl rfl
    (h.blockCurrent hi o r) hu⟩
  rw [schedulerBlock_eq]
  exact hu

theorem linkTask_tcb_new {s : Sched} (n : NewTask) (h : s.idleTask < s.count) :
    (linkTask s n).tcb s.count =
      { esp := n.esp, state := .ready, pid := s.nextPid, stackBase := n.stackBase, cr3 := n.cr3,
        tty := n.tty, fds := n.fds, waitObj := 0, exitCode := 0, next := s.next s.idleTask } := by
  simp [linkTask, Sched.setTcb, Nat.ne_of_gt h]

/-- Of the tasks that are there already nothing changes but the link of one. -/
theorem linkTask_field {β : Type*} (field : Tcb → β)
    (h : ∀ (b : Tcb) (k : ℕ), field { b with next := k } = field b) {s : Sched} (n : NewTask)
    {t : ℕ} (ht : t < s.count) : field ((linkTask s n).tcb t) = field (s.tcb t) := by
  obtain ⟨k, hk⟩ := linkTask_tcb_of_lt n ht
  rw [hk, h]

theorem wakes_return {s : Sched} (h : SchedInv s) (wakes : List ℕ) :
    ∃ s', wakes.foldlM schedulerWake s = some s' ∧ SchedInv s' ∧ SameTasks s s' := by
  apply exists_foldlM (P := fun s' => SchedInv s' ∧ SameTasks s s') _ ⟨h, SameTasks.refl s⟩
  rintro o - s₁ ⟨h₁, hsame⟩
  obtain ⟨s₂, hs₂, h₂⟩ := h₁.wake o
  exact ⟨s₂, hs₂, h₂, hsame.trans (SameTasks.wake h₁.ring hs₂)⟩

/-! ## One register file per task -/

namespace Machine

/-- The registers of task `t`: the CPU's while it runs, its frame's otherwise. -/
def registers (m : Machine) (t : ℕ) : Regs :=
  if t = m.sched.currentTask then m.regs else popFrame m.mem (m.sched.tcb t).esp

/-- The registers of task `t` after an event: only code of the current task and a new
    task change any. -/
def registersAfter (m : Machine) (e : Event) (t : ℕ) : Regs :=
  match e with
  | .execute regs _ => if t = m.sched.currentTask then regs else m.registers t
  | .block _ _ =>
    if t = m.sched.currentTask then returned m.regs m.returnAddress else m.registers t
  | .createTask _ stack _ func _ =>
    if t = m.sched.count then entryRegs func (UInt32.ofNat (stack + taskStackSize - 4))
    else m.registers t
  | .createUserTask _ stack _ _ entry argv =>
    if t = m.sched.count then
      entryRegs entry (UInt32.ofNat (stack + taskStackSize - 4 * (argv.length + 3)))
    else m.registers t
  | _ => m.registers t

theorem ite_registers (m : Machine) (t : ℕ) :
    (if t = m.sched.currentTask then m.regs else m.registers t) = m.registers t := by
  split_ifs with hcur
  · rw [hcur, registers, if_pos rfl]
  · rfl

/-- What holds of the machine between two events. -/
structure Inv (boot : ℕ) (m : Machine) : Prop where
  sched : SchedInv m.sched
  active : m.sched.cr3 = m.sched.current.cr3
  apart : Apart boot m.sched
  saved : ∀ t < m.sched.count, t ≠ m.sched.currentTask →
    stackLow boot m.sched t ≤ (m.sched.tcb t).esp ∧
      (m.sched.tcb t).esp + frameSize ≤ stackTop m.sched t

variable {boot : ℕ} {m : Machine}

theorem Inv.start (kernelDir : ℕ) (fds : FdTable) (mem : ℕ → UInt8) (regs : Regs) :
    Inv boot (Machine.start kernelDir fds mem regs) := by
  have hone : ∀ t < (Machine.start kernelDir fds mem regs).sched.count, t = 0 := fun _ ht =>
    Nat.lt_one_iff.mp ht
  refine ⟨SchedInv.init kernelDir fds, rfl, ?_, ?_⟩
  · intro t ht u hu hne
    exact absurd ((hone t ht).trans (hone u hu).symm) hne
  · intro t ht hne
    exact absurd (hone t ht) hne

/-- The frames of the other tasks lie outside the stack of the current task. -/
theorem Inv.not_saved (h : Inv boot m) {x : ℕ}
    (hlow : stackLow boot m.sched m.sched.currentTask ≤ x)
    (htop : x < stackTop m.sched m.sched.currentTask) : ¬ Saved m.sched x := by
  rintro ⟨t, ht, hne, h1, h2⟩
  have hframe := h.saved t ht hne
  obtain hdis | hdis := h.apart t ht _ h.sched.current_lt hne
  · omega
  · omega

theorem Inv.saved_outside (h : Inv boot m) {stack x : ℕ} (hfresh : FreshStack boot m.sched stack)
    (hx : Saved m.sched x) : x < stack ∨ stack + taskStackSize ≤ x := by
  obtain ⟨t, ht, hne, h1, h2⟩ := hx
  have hframe := h.saved t ht hne
  obtain hdis | hdis := hfresh.2 t ht
  · omega
  · omega

/-- A saved frame that is left alone holds the same registers. -/
theorem popFrame_saved {t : ℕ} (ht : t < m.sched.count) (hne : t ≠ m.sched.currentTask)
    {mem : ℕ → UInt8} (hmem : ∀ x, Saved m.sched x → mem x = m.mem x) :
    popFrame mem (m.sched.tcb t).esp = m.registers t := by
  rw [registers, if_neg hne]
  exact popFrame_congr fun x h1 h2 => hmem x ⟨t, ht, hne, h1, h2⟩

/-! ## Three kinds of events -/

/-- The current task goes on: the scheduler moved no frame, and the frames were left
    alone. -/
theorem Inv.same (h : Inv boot m) (regs : Regs) {s : Sched} {mem : ℕ → UInt8}
    (hs : SameTasks m.sched s) (hinv : SchedInv s)
    (hmem : ∀ x, Saved m.sched x → mem x = m.mem x) :
    Inv boot ⟨s, mem, regs⟩ ∧ ∀ t < m.sched.count, (⟨s, mem, regs⟩ : Machine).registers t =
      if t = m.sched.currentTask then regs else m.registers t := by
  refine ⟨⟨hinv, ?_, hs.apart h.apart, ?_⟩, ?_⟩
  · show s.cr3 = (s.tcb s.currentTask).cr3
    rw [hs.active, hs.current, hs.cr3]
    exact h.active
  · intro t ht hne
    rw [hs.low, hs.top, hs.esp]
    exact h.saved t (hs.count ▸ ht) (hs.current ▸ hne)
  · intro t ht
    rw [registers]
    simp only [hs.current, hs.esp]
    split_ifs with hcur
    · rfl
    · exact popFrame_saved ht hcur hmem

/-- The current task is saved with its frame at `r`, which holds the registers `c`, and
    some task goes on with its own frame. -/
theorem Inv.switch (h : Inv boot m) {s : Sched} {mem : ℕ → UInt8} {r : ℕ} {c : Regs}
    (hs : Switched m.sched s r) (hinv : SchedInv s)
    (hlow : stackLow boot m.sched m.sched.currentTask ≤ r)
    (htop : r + frameSize ≤ stackTop m.sched m.sched.currentTask)
    (hmem : ∀ x, Saved m.sched x → mem x = m.mem x) (hc : popFrame mem r = c) :
    Inv boot ⟨s, mem, popFrame mem s.current.esp⟩ ∧ ∀ t < m.sched.count,
      (⟨s, mem, popFrame mem s.current.esp⟩ : Machine).registers t =
        if t = m.sched.currentTask then c else m.registers t := by
  refine ⟨⟨hinv, hs.active, hs.apart h.apart, ?_⟩, ?_⟩
  · intro t ht _
    rw [hs.low, hs.top, hs.esp]
    split_ifs with hcur
    · rw [hcur]
      exact ⟨hlow, htop⟩
    · exact h.saved t (hs.count ▸ ht) hcur
  · intro t ht
    -- the task that was chosen runs with what its frame holds, as the others will
    have hframe : (⟨s, mem, popFrame mem s.current.esp⟩ : Machine).registers t =
        popFrame mem (s.tcb t).esp := by
      rw [registers]
      split_ifs with hcur
      · rw [hcur]
      · rfl
    rw [hframe, hs.esp]
    split_ifs with hcur
    · exact hc
    · exact popFrame_saved ht hcur hmem

/-- A task is linked that has a stack of its own and its frame on it. -/
theorem Inv.link (h : Inv boot m) {n : NewTask} {mem : ℕ → UInt8} {c : Regs}
    (hfresh : FreshStack boot m.sched n.stackBase) (hlow : n.stackBase ≤ n.esp)
    (htop : n.esp + frameSize ≤ n.stackBase + taskStackSize)
    (hmem : ∀ x, x < n.stackBase ∨ n.stackBase + taskStackSize ≤ x → mem x = m.mem x)
    (hc : popFrame mem n.esp = c) :
    Inv boot { m with sched := linkTask m.sched n, mem } ∧ ∀ t < m.sched.count + 1,
      ({ m with sched := linkTask m.sched n, mem } : Machine).registers t =
        if t = m.sched.count then c else m.registers t := by
  have hidle := h.sched.ring.idle_lt
  have hcur := h.sched.current_lt
  have hlowNew : stackLow boot (linkTask m.sched n) m.sched.count = n.stackBase := by
    rw [stackLow, linkTask_idleTask, if_neg (by omega), linkTask_tcb_new n hidle]
  have htopNew : stackTop (linkTask m.sched n) m.sched.count = n.stackBase + taskStackSize := by
    rw [stackTop, linkTask_idleTask, if_neg (by omega), linkTask_tcb_new n hidle]
  have hbase : ∀ t < m.sched.count,
      ((linkTask m.sched n).tcb t).stackBase = (m.sched.tcb t).stackBase :=
    fun t ht => linkTask_field Tcb.stackBase (fun _ _ => rfl) n ht
  have hesp : ∀ t < m.sched.count, ((linkTask m.sched n).tcb t).esp = (m.sched.tcb t).esp :=
    fun t ht => linkTask_field Tcb.esp (fun _ _ => rfl) n ht
  have hlowOld : ∀ t < m.sched.count,
      stackLow boot (linkTask m.sched n) t = stackLow boot m.sched t := fun t ht => by
    rw [stackLow, stackLow, linkTask_idleTask, hbase t ht]
  have htopOld : ∀ t < m.sched.count, stackTop (linkTask m.sched n) t = stackTop m.sched t :=
    fun t ht => by rw [stackTop, stackTop, linkTask_idleTask, hbase t ht]
  refine ⟨⟨h.sched.linkTask n, ?_, ?_, ?_⟩, ?_⟩
  · show m.sched.cr3 = ((linkTask m.sched n).tcb m.sched.currentTask).cr3
    rw [linkTask_field Tcb.cr3 (fun _ _ => rfl) n hcur]
    exact h.active
  · intro t ht u hu hne
    have ht' : t < m.sched.count + 1 := ht
    have hu' : u < m.sched.count + 1 := hu
    obtain htc | rfl := Nat.lt_succ_iff_lt_or_eq.mp ht'
    · obtain huc | rfl := Nat.lt_succ_iff_lt_or_eq.mp hu'
      · simp only [hlowOld t htc, htopOld t htc, hlowOld u huc, htopOld u huc]
        exact h.apart t htc u huc hne
      · simp only [hlowOld t htc, htopOld t htc, hlowNew, htopNew]
        exact hfresh.2 t htc
    · obtain huc | rfl := Nat.lt_succ_iff_lt_or_eq.mp hu'
      · simp only [hlowOld u huc, htopOld u huc, hlowNew, htopNew]
        exact (hfresh.2 u huc).symm
      · exact absurd rfl hne
  · intro t ht hne
    have ht' : t < m.sched.count + 1 := ht
    obtain htc | rfl := Nat.lt_succ_iff_lt_or_eq.mp ht'
    · simp only [hlowOld t htc, htopOld t htc, hesp t htc]
      exact h.saved t htc hne
    · simp only [hlowNew, htopNew, linkTask_tcb_new n hidle]
      exact ⟨hlow, htop⟩
  · intro t ht
    obtain htc | rfl := Nat.lt_succ_iff_lt_or_eq.mp ht
    · rw [if_neg (by omega)]
      show (if t = m.sched.currentTask then m.regs
        else popFrame mem ((linkTask m.sched n).tcb t).esp) = m.registers t
      split_ifs with heq
      · rw [heq, registers, if_pos rfl]
      · rw [hesp t htc]
        exact popFrame_saved htc heq fun x hx => hmem x (h.saved_outside hfresh hx)
    · rw [if_pos rfl]
      show (if m.sched.count = m.sched.currentTask then m.regs
        else popFrame mem ((linkTask m.sched n).tcb m.sched.count).esp) = c
      rw [if_neg (by omega), linkTask_tcb_new n hidle]
      exact hc

/-! ## Every event -/

/-- What event `e` makes of `m`. -/
structure After (boot : ℕ) (m : Machine) (e : Event) (m' : Machine) : Prop where
  inv : Inv boot m'
  count : m.sched.count ≤ m'.sched.count
  cr3 : ∀ t < m.sched.count, (m'.sched.tcb t).cr3 = (m.sched.tcb t).cr3
  registers : ∀ t < m'.sched.count, m'.registers t = m.registersAfter e t

theorem Inv.irq (h : Inv boot m) {n : ℕ} {wakes : List ℕ} {code : (ℕ → UInt8) → ℕ → UInt8}
    (hok : Ok boot m (.irq n wakes code)) :
    ∃ m', m.step (.irq n wakes code) = some m' ∧ After boot m (.irq n wakes code) m' := by
  obtain ⟨-, hnull, hlow, htop, hcode⟩ := hok
  have hroom : frameSize ≤ m.regs.esp.toNat := by omega
  have hmem : ∀ x, Saved m.sched x → code (m.interrupted n) x = m.mem x := by
    intro x hx
    rw [hcode x (.inl hx)]
    apply pushAll_frame_of_outside hroom
    by_contra hin
    exact h.not_saved (by omega) (by omega) hx
  have hframe : popFrame (code (m.interrupted n)) (m.regs.esp.toNat - frameSize) = m.regs :=
    popFrame_pushed hroom rfl fun x h1 h2 => hcode x (.inr ⟨h1, h2⟩)
  by_cases hn : n = 0
  · -- the timer: the frame becomes the saved frame of the task
    obtain ⟨s', hs', hinv, hsw⟩ := Switched.tick h.sched (m.regs.esp.toNat - frameSize)
    obtain ⟨hinv', hregs⟩ := h.switch hsw hinv (by omega) (by omega) hmem hframe
    refine ⟨_, ?_, hinv', hsw.count.ge, fun t _ => hsw.cr3 t, fun t ht =>
      (hregs t (hsw.count ▸ ht)).trans (m.ite_registers t)⟩
    simp only [step, irqDispatcher, hnull hn, hn, List.foldlM_nil, hs', if_pos, Option.pure_def,
      Option.bind_eq_bind, Option.bind_some]
  · -- a device: the interrupted code goes on
    obtain ⟨s', hs', hinv, hst⟩ := wakes_return h.sched wakes
    obtain ⟨hinv', hregs⟩ := h.same m.regs hst hinv hmem
    refine ⟨_, ?_, hinv', hst.count.ge, fun t _ => hst.cr3 t, fun t ht =>
      (hregs t (hst.count ▸ ht)).trans (m.ite_registers t)⟩
    simp only [step, irqDispatcher, hs', if_neg hn, Option.pure_def, Option.bind_eq_bind,
      Option.bind_some, hframe]

theorem Inv.block (h : Inv boot m) {o : ℕ} {code : (ℕ → UInt8) → ℕ → UInt8}
    (hok : Ok boot m (.block o code)) :
    ∃ m', m.step (.block o code) = some m' ∧ After boot m (.block o code) m' := by
  obtain ⟨hi, hlow, htop, hlt, hcode⟩ := hok
  have hroom : frameSize ≤ m.regs.esp.toNat + 4 := by omega
  have hesp : (returned m.regs m.returnAddress).esp.toNat = m.regs.esp.toNat + 4 := by
    show (m.regs.esp + 4).toNat = m.regs.esp.toNat + 4
    rw [UInt32.toNat_add]
    exact Nat.mod_eq_of_lt hlt
  have hmem : ∀ x, Saved m.sched x → code m.yielded x = m.mem x := by
    intro x hx
    rw [hcode x (.inl hx), yielded, switchWords_eq]
    apply pushAll_frame_of_outside hroom
    by_contra hin
    exact h.not_saved (by omega) (by omega) hx
  have hframe : popFrame (code m.yielded) (m.regs.esp.toNat + 4 - frameSize) =
      returned m.regs m.returnAddress :=
    popFrame_pushed hroom hesp fun x h1 h2 => hcode x (.inr ⟨h1, h2⟩)
  obtain ⟨s', hs', hinv, hsw⟩ := Switched.block h.sched hi o (m.regs.esp.toNat + 4 - frameSize)
  obtain ⟨hinv', hregs⟩ := h.switch hsw hinv (by omega) (by omega) hmem hframe
  refine ⟨_, ?_, hinv', hsw.count.ge, fun t _ => hsw.cr3 t, fun t ht =>
    hregs t (hsw.count ▸ ht)⟩
  simp only [step, hs', Option.pure_def, Option.bind_eq_bind, Option.bind_some]

/-- A task whose words on its new stack end in a frame for `entryRegs`. -/
theorem Inv.create (h : Inv boot m) {n : NewTask} (above : List ℕ) (eip : UInt32)
    (hfresh : FreshStack boot m.sched n.stackBase)
    (hlen : 4 * above.length + frameSize ≤ taskStackSize) (hone : above ≠ [])
    (hesp : n.esp = n.stackBase + taskStackSize - 4 * above.length - frameSize) :
    let mem := pushAll 4 m.mem (n.stackBase + taskStackSize)
      (above ++ interruptWords (entryRegs eip
        (UInt32.ofNat (n.stackBase + taskStackSize - 4 * above.length))) 0)
    Inv boot { m with sched := linkTask m.sched n, mem } ∧ ∀ t < m.sched.count + 1,
      ({ m with sched := linkTask m.sched n, mem } : Machine).registers t =
        if t = m.sched.count then
          entryRegs eip (UInt32.ofNat (n.stackBase + taskStackSize - 4 * above.length))
        else m.registers t := by
  intro mem
  have hpos := List.length_pos_iff.mpr hone
  have hsp : (UInt32.ofNat (n.stackBase + taskStackSize - 4 * above.length)).toNat =
      n.stackBase + taskStackSize - 4 * above.length := by
    rw [UInt32.toNat_ofNat']
    exact Nat.mod_eq_of_lt (by have := hfresh.1; omega)
  apply h.link hfresh (by omega) (by omega)
  · intro x hx
    apply pushAll_of_outside
    all_goals
      rw [List.length_append, Nat.mul_add, length_interruptWords]
      omega
  · rw [hesp]
    apply popFrame_pushed (by omega) hsp
    · intro x _ _
      exact congrFun (pushAll_append _ _ _ _) x

/-- What a user task finds on its stack: `argc`, `argv` and two null words, in the order of
    the pushes. -/
def argumentWords (argv : List UInt32) : List ℕ :=
  [0, 0] ++ (argv.map UInt32.toNat).reverse ++ [argv.length]

theorem length_argumentWords (argv : List UInt32) :
    (argumentWords argv).length = argv.length + 3 := by
  simp [argumentWords]

theorem userTaskWords_eq (entry esp : UInt32) (argv : List UInt32) :
    userTaskWords entry argv = argumentWords argv ++ interruptWords (entryRegs entry esp) 0 := by
  simp [userTaskWords, argumentWords, interruptWords, entryRegs]

theorem length_userTaskWords (entry : UInt32) (argv : List UInt32) :
    4 * (userTaskWords entry argv).length = 4 * (argumentWords argv).length + frameSize := by
  rw [userTaskWords_eq entry 0, List.length_append, Nat.mul_add, length_interruptWords]

/-- The scheduler's state changed in no way that concerns the CPU. -/
theorem Inv.call (h : Inv boot m) {s : Sched} (hs : SameTasks m.sched s) (hinv : SchedInv s)
    {e : Event} (he : ∀ t, m.registersAfter e t = m.registers t) :
    After boot m e { m with sched := s } := by
  obtain ⟨hinv', hregs⟩ := h.same m.regs hs hinv fun _ _ => rfl
  refine ⟨hinv', hs.count.ge, fun t _ => hs.cr3 t, ?_⟩
  intro t ht
  rw [he]
  exact (hregs t (hs.count ▸ ht)).trans (m.ite_registers t)

/-- Every event that can happen ends; it keeps the invariant, and of the register files it
    changes at most the current task's. -/
theorem step_spec (h : Inv boot m) {e : Event} (hok : Ok boot m e) :
    ∃ m', m.step e = some m' ∧ After boot m e m' := by
  cases e with
  | execute regs mem =>
    obtain ⟨hinv, hregs⟩ := h.same regs (SameTasks.refl _) h.sched hok
    exact ⟨_, rfl, hinv, le_rfl, fun _ _ => rfl, hregs⟩
  | irq n wakes code => exact h.irq hok
  | block o code => exact h.block hok
  | createTask kernelDir stack fds func te =>
    have hesp : (stack + taskStackSize - 13 * 4) % 2 ^ 32 =
        stack + taskStackSize - 4 * [te.toNat].length - frameSize := by
      have := hok.1
      simp only [List.length_singleton, taskStackSize, frameSize] at this ⊢
      omega
    obtain ⟨hinv, hregs⟩ := h.create [te.toNat] func
      (n := ⟨(stack + taskStackSize - 13 * 4) % 2 ^ 32, stack, kernelDir, m.sched.current.tty, fds⟩)
      hok (by simp [taskStackSize, frameSize]) (by simp) hesp
    exact ⟨_, rfl, hinv, Nat.le_succ _, fun t ht => linkTask_field Tcb.cr3 (fun _ _ => rfl) _ ht,
      hregs⟩
  | createUserTask dir stack tty fds entry argv =>
    obtain ⟨hfresh, hargs⟩ := hok
    have hesp : stack + taskStackSize - 4 * (userTaskWords entry argv).length =
        stack + taskStackSize - 4 * (argumentWords argv).length - frameSize := by
      rw [length_userTaskWords, Nat.sub_sub]
    have hroom : 4 * (argumentWords argv).length + frameSize ≤ taskStackSize := by
      rw [length_argumentWords]
      simp only [taskStackSize, frameSize]
      omega
    obtain ⟨hinv, hregs⟩ := h.create (argumentWords argv) entry
      (n := ⟨stack + taskStackSize - 4 * (userTaskWords entry argv).length, stack, dir,
        if tty ≥ 0 then tty else m.sched.current.tty, fds⟩)
      hfresh hroom (by simp [argumentWords]) hesp
    rw [length_argumentWords, ← userTaskWords_eq] at hinv hregs
    exact ⟨_, rfl, hinv, Nat.le_succ _, fun t ht => linkTask_field Tcb.cr3 (fun _ _ => rfl) _ ht,
      hregs⟩
  | wake o =>
    obtain ⟨s', hs', hinv⟩ := h.sched.wake o
    refine ⟨{ m with sched := s' }, ?_, h.call (SameTasks.wake h.sched.ring hs') hinv fun _ => rfl⟩
    simp only [step, hs', Option.pure_def, Option.bind_eq_bind, Option.bind_some]
  | exit c =>
    obtain ⟨s', hs', hinv⟩ := h.sched.markExited hok c
    refine ⟨{ m with sched := s' }, ?_,
      h.call (SameTasks.markExited h.sched hok hs') hinv fun _ => rfl⟩
    have hcall : schedulerExitCurrent m.sched c = some s' := by
      rwa [schedulerExitCurrent, if_neg hok]
    simp only [step, hcall, Option.pure_def, Option.bind_eq_bind, Option.bind_some]
  | taskExit =>
    obtain ⟨s', hs', hinv⟩ := h.sched.markExited hok 0
    refine ⟨{ m with sched := s' }, ?_,
      h.call (SameTasks.markExited h.sched hok hs') hinv fun _ => rfl⟩
    simp only [step, taskExit, hs', Option.pure_def, Option.bind_eq_bind, Option.bind_some]

/-! ## Every run -/

/-- The event is code of task `t`. -/
def Runs (t : ℕ) (m : Machine) : Event → Prop
  | .execute _ _ => m.sched.currentTask = t
  | .block _ _ => m.sched.currentTask = t
  | _ => False

/-- What other tasks, devices and the timer do leaves the registers of `t` alone. -/
theorem registersAfter_of_not_runs {e : Event} {t : ℕ} (ht : t < m.sched.count)
    (h : ¬ Runs t m e) : m.registersAfter e t = m.registers t := by
  cases e with
  | execute regs mem | block o code => exact if_neg fun heq => h heq.symm
  | createTask kernelDir stack fds func te | createUserTask dir stack tty fds entry argv =>
    exact if_neg ht.ne
  | irq n wakes code | wake o | exit c | taskExit => rfl

theorem After.of_step (h : Inv boot m) {e : Event} {m' : Machine} (hs : Step boot m e m') :
    After boot m e m' := by
  obtain ⟨m₁, hm₁, hafter⟩ := step_spec h hs.1
  cases hm₁.symm.trans hs.2
  exact hafter

/-- As long as no code of task `t` runs, its registers and its directory stay as they are. -/
theorem registers_of_run (h : Inv boot m) {t : ℕ} (ht : t < m.sched.count) {es : List Event}
    {m' : Machine} (hrun : Run (restrict (Step boot) fun m e => ¬ Runs t m e) m es m') :
    Inv boot m' ∧ t < m'.sched.count ∧ m'.registers t = m.registers t ∧
      (m'.sched.tcb t).cr3 = (m.sched.tcb t).cr3 := by
  apply hrun.invariant ⟨h, ht, rfl, rfl⟩
  rintro u e v ⟨hu, htu, hregs, hcr3⟩ ⟨hother, hs⟩
  have hafter := After.of_step hu hs
  have htv : t < v.sched.count := htu.trans_le hafter.count
  refine ⟨hafter.inv, htv, ?_, (hafter.cr3 t htu).trans hcr3⟩
  rw [hafter.registers t htv, registersAfter_of_not_runs htu hother, hregs]

theorem inv_of_reachable {kernelDir : ℕ} {fds : FdTable} {mem : ℕ → UInt8} {regs : Regs}
    (h : Reachable (Step boot) (Machine.start kernelDir fds mem regs) m) : Inv boot m :=
  h.invariant (Inv.start kernelDir fds mem regs) fun _ _ _ hu hs => (After.of_step hu hs).inv

/-- **Switching tasks is transparent.** In every state the machine can reach, an event that
    can happen ends. Whatever happens afterwards, as long as no code of task `t` runs: when
    `t` has the CPU, the CPU's registers are exactly those the event left it with, and `CR3`
    holds its directory. An interrupt leaves a task the registers it was interrupted with, a
    call of `scheduler_block` those of a return from `scheduler_switch`, and creation the
    entry point with cleared registers. -/
theorem task_resumes_with_its_registers {kernelDir : ℕ} {fds : FdTable} {mem : ℕ → UInt8}
    {regs : Regs} (h : Reachable (Step boot) (Machine.start kernelDir fds mem regs) m) {e : Event}
    (hok : Ok boot m e) :
    ∃ m₁, m.step e = some m₁ ∧ ∀ t < m₁.sched.count, ∀ es m',
      Run (restrict (Step boot) fun m e => ¬ Runs t m e) m₁ es m' → m'.sched.currentTask = t →
        m'.regs = m.registersAfter e t ∧ m'.sched.cr3 = (m₁.sched.tcb t).cr3 := by
  obtain ⟨m₁, hm₁, hafter⟩ := step_spec (inv_of_reachable h) hok
  refine ⟨m₁, hm₁, ?_⟩
  intro t ht es m' hrun hcur
  obtain ⟨hinv, -, hregs, hcr3⟩ := registers_of_run hafter.inv ht hrun
  constructor
  · rw [← hafter.registers t ht, ← hregs, registers, if_pos hcur.symm]
  · rw [← hcr3, ← hcur]
    exact hinv.active

def booted : Machine :=
  Machine.start 0x1000 (fun _ => -1) (fun _ => 0) (entryRegs 0x10000 0x8F000)

/-- The boot context creates a task and is interrupted by the timer: the task starts at its
    entry point, on its own stack. -/
theorem first_task_starts : ∃ m₁ m' : Machine,
    booted.step (.createTask 0x1000 0x200000 (fun _ => -1) 0x11000 0x12000) = some m₁ ∧
      m₁.step (.irq 0 [] id) = some m' ∧ m'.regs = entryRegs 0x11000 0x20FFFC := by
  have hfresh : Ok 0x80000 booted (.createTask 0x1000 0x200000 (fun _ => -1) 0x11000 0x12000) := by
    refine ⟨by decide, fun t ht => Or.inl ?_⟩
    obtain rfl : t = 0 := Nat.lt_one_iff.mp ht
    decide
  obtain ⟨m₁, hm₁, hall⟩ := task_resumes_with_its_registers (Reachable.refl _) hfresh
  cases hm₁
  refine ⟨_, _, rfl, rfl, ?_⟩
  exact (hall 1 (by decide) [.irq 0 [] id] _
    (Run.single ⟨id, ⟨by decide, fun _ => rfl, by decide, by decide, fun _ _ => rfl⟩, rfl⟩) rfl).1

end Machine

end Mboot.Cpu
