import Mboot.Common.Stack
import Mboot.Scheduler.Invariant

/-!
# Registers, saved frames and the switching stubs

Model of the code that takes the CPU from one task and gives it to another: the
frame that an interrupt and `irq_common` (`stage2/cpu/interrupts/irq.asm`) push, the
frame that `scheduler_switch` (`stage2/sched_switch.asm`) builds, the frames that
`create_task` and `create_user_task_from_segments` put on a new stack
(`stage2/scheduler.c`), and the common end of the stubs that pops a frame.

* Tasks run at ring 0, so neither an interrupt nor `iret` touches `esp` and `ss`
  beyond the words pushed and popped.
* The memory is flat: every stack is mapped at its own address in every page
  directory, so that the stubs find it before and after `CR3` has changed. This
  holds for stacks from `kmalloc` and for the boot stack, not for the copied stack
  pages of a forked child.
* The C code between the pushes and the pops (`irq_dispatcher` with the handler of
  the device, `scheduler_perform_switch`) uses the stack below the frame and may
  write elsewhere. It is an arbitrary change of memory here, `code`.
* The data segment registers are set to the one data selector there is and are left
  out.
-/

namespace Mboot.Cpu

open Common Scheduler

/-- The general-purpose registers, which the stubs save and restore. They leave those
    of the FPU alone. -/
structure Regs where
  edi : UInt32
  esi : UInt32
  ebp : UInt32
  edx : UInt32
  ecx : UInt32
  ebx : UInt32
  eax : UInt32
  eip : UInt32
  cs : UInt32
  eflags : UInt32
  esp : UInt32
  deriving DecidableEq

/-- `GDT_CODE_SEG`. -/
abbrev gdtCodeSeg : UInt32 := 0x08

/-- The bytes of a saved frame: `registers_t` (inc/io.h) without `esp` and `ss`. -/
abbrev frameSize : ℕ := 48

/-- What is on the stack when `irq_common` calls `irq_dispatcher`, in the order of the
    pushes: the CPU's `eflags`, `cs` and `eip`, the two words of the stub, and the
    registers of `pusha_c`. -/
def interruptWords (c : Regs) (intNo : ℕ) : List ℕ :=
  [c.eflags.toNat, c.cs.toNat, c.eip.toNat, 0, intNo, c.eax.toNat, c.ebx.toNat, c.ecx.toNat,
    c.edx.toNat, c.ebp.toNat, c.esi.toNat, c.edi.toNat]

/-- The pushes of `scheduler_switch` (sched_switch.asm lines 10–23) after `pop ecx` has
    taken the return address `ra`. -/
def switchWords (c : Regs) (ra : UInt32) : List ℕ :=
  [(c.eflags ||| 0x200).toNat, gdtCodeSeg.toNat, ra.toNat, 0, 0, c.eax.toNat, c.ebx.toNat,
    ra.toNat, c.edx.toNat, c.ebp.toNat, c.esi.toNat, c.edi.toNat]

/-- The words `create_task` pushes (scheduler.c lines 277–289). -/
def kernelTaskWords (func taskExit : UInt32) : List ℕ :=
  [taskExit.toNat, 0x202, gdtCodeSeg.toNat, func.toNat] ++ List.replicate 9 0

/-- The words `create_user_task_from_segments` pushes (lines 386–404); `argv` are the
    copies of the arguments. -/
def userTaskWords (entry : UInt32) (argv : List UInt32) : List ℕ :=
  [0, 0] ++ (argv.map UInt32.toNat).reverse ++
    [argv.length, 0x202, gdtCodeSeg.toNat, entry.toNat] ++ List.replicate 9 0

/-- Word `k` of the frame at `r`. -/
def savedWord (m : ℕ → UInt8) (r k : ℕ) : UInt32 := UInt32.ofNat (load 4 m (r + 4 * k))

/-- The common end of `irq_common`, `syscall_handler` and `scheduler_switch` with
    `esp = r`: `popa_c`, `add esp, 8`, `iret`. -/
def popFrame (m : ℕ → UInt8) (r : ℕ) : Regs where
  edi := savedWord m r 0
  esi := savedWord m r 1
  ebp := savedWord m r 2
  edx := savedWord m r 3
  ecx := savedWord m r 4
  ebx := savedWord m r 5
  eax := savedWord m r 6
  -- `int_no` and `err_code` are skipped
  eip := savedWord m r 9
  cs := savedWord m r 10
  eflags := savedWord m r 11
  esp := UInt32.ofNat (r + frameSize)

/-! ## The machine -/

/-- The scheduler, the memory and the registers of the CPU. -/
structure Machine where
  sched : Sched
  mem : ℕ → UInt8
  regs : Regs

/-- The boot stack ends here (`init_pm` in stage1/boot.asm). -/
abbrev bootStackTop : ℕ := 0x90000

/-- The lowest address of the stack of task `t`. The idle task runs on the boot stack,
    which has the room down to `boot`. -/
def stackLow (boot : ℕ) (s : Sched) (t : ℕ) : ℕ :=
  if t = s.idleTask then boot else (s.tcb t).stackBase

/-- The end of the stack of task `t`. -/
def stackTop (s : Sched) (t : ℕ) : ℕ :=
  if t = s.idleTask then bootStackTop else (s.tcb t).stackBase + taskStackSize

/-- What happens to the machine. -/
inductive Event
  /-- Code of the current task, of any length, up to the given registers and memory. -/
  | execute (regs : Regs) (mem : ℕ → UInt8)
  /-- IRQ `n`, whose handler signals `wakes`. -/
  | irq (n : ℕ) (wakes : List ℕ) (code : (ℕ → UInt8) → ℕ → UInt8)
  /-- `scheduler_block(waitObj)`, from the entry of `scheduler_switch` on. -/
  | block (waitObj : ℕ) (code : (ℕ → UInt8) → ℕ → UInt8)
  | createTask (kernelDir stack : ℕ) (fds : FdTable) (func taskExit : UInt32)
  | createUserTask (dir stack : ℕ) (tty : ℤ) (fds : FdTable) (entry : UInt32)
      (argv : List UInt32)
  | wake (waitObj : ℕ)
  | exit (exitCode : ℤ)
  | taskExit

/-- `irq_dispatcher` (irq.c lines 13–30): the handler of the device, then for IRQ 0 the
    scheduler, which may return the frame of another task. -/
def irqDispatcher (s : Sched) (n : ℕ) (wakes : List ℕ) (r : ℕ) : Option (ℕ × Sched) := do
  let s ← wakes.foldlM schedulerWake s
  if n = 0 then
    let s ← schedulerTick s r
    return (s.current.esp, s)
  else return (r, s)

namespace Machine

/-- The return address that `scheduler_switch` pops into `ecx`. -/
def returnAddress (m : Machine) : UInt32 := savedWord m.mem m.regs.esp.toNat 0

/-- The memory when `irq_dispatcher` is called. -/
def interrupted (m : Machine) (n : ℕ) : ℕ → UInt8 :=
  pushAll 4 m.mem m.regs.esp.toNat (interruptWords m.regs (n + 32))

/-- The memory when `scheduler_perform_switch` is called. -/
def yielded (m : Machine) : ℕ → UInt8 :=
  pushAll 4 m.mem (m.regs.esp.toNat + 4) (switchWords m.regs m.returnAddress)

/-- The state after an event. -/
def step (m : Machine) : Event → Option Machine
  | .execute regs mem => some { m with regs, mem }
  | .irq n wakes code => do
    let mem := code (m.interrupted n)
    let (esp, sched) ← irqDispatcher m.sched n wakes (m.regs.esp.toNat - frameSize)
    return { sched, mem, regs := popFrame mem esp }
  | .block waitObj code => do
    let mem := code m.yielded
    let sched ← schedulerBlock m.sched waitObj (m.regs.esp.toNat + 4 - frameSize)
    return { sched, mem, regs := popFrame mem sched.current.esp }
  | .createTask kernelDir stack fds func taskExit =>
    some { m with
      sched := createTask m.sched kernelDir stack fds
      mem := pushAll 4 m.mem (stack + taskStackSize) (kernelTaskWords func taskExit) }
  | .createUserTask dir stack tty fds entry argv =>
    let words := userTaskWords entry argv
    some { m with
      sched := createUserTask m.sched dir stack (stack + taskStackSize - 4 * words.length) tty fds
      mem := pushAll 4 m.mem (stack + taskStackSize) words }
  | .wake waitObj => do return { m with sched := ← schedulerWake m.sched waitObj }
  | .exit exitCode => do return { m with sched := ← schedulerExitCurrent m.sched exitCode }
  | .taskExit => do return { m with sched := ← taskExit m.sched }

/-- `x` is a byte of the frame of a task that is not running. -/
def Saved (s : Sched) (x : ℕ) : Prop :=
  ∃ t < s.count, t ≠ s.currentTask ∧ (s.tcb t).esp ≤ x ∧ x < (s.tcb t).esp + frameSize

/-- The stack at `stack` lies apart from the stacks of all tasks. -/
def FreshStack (boot : ℕ) (s : Sched) (stack : ℕ) : Prop :=
  stack + taskStackSize ≤ 2 ^ 32 ∧
    ∀ t < s.count, stackTop s t ≤ stack ∨ stack + taskStackSize ≤ stackLow boot s t

/-- When an event can happen, and what the code that runs in it leaves alone: the frames
    of the tasks that are not running, and the frame it was called with. A frame is pushed
    where the stack of the current task has room for it. The idle task only halts. -/
def Ok (boot : ℕ) (m : Machine) : Event → Prop
  | .execute _ mem => ∀ x, Saved m.sched x → mem x = m.mem x
  | .irq n wakes code =>
    m.regs.eflags.toNat.testBit 9 ∧ (n = 0 → wakes = []) ∧
    stackLow boot m.sched m.sched.currentTask + frameSize ≤ m.regs.esp.toNat ∧
    m.regs.esp.toNat ≤ stackTop m.sched m.sched.currentTask ∧
    ∀ x, Saved m.sched x ∨ m.regs.esp.toNat - frameSize ≤ x ∧ x < m.regs.esp.toNat →
      code (m.interrupted n) x = m.interrupted n x
  | .block _ code =>
    m.sched.currentTask ≠ m.sched.idleTask ∧
    stackLow boot m.sched m.sched.currentTask + frameSize ≤ m.regs.esp.toNat + 4 ∧
    m.regs.esp.toNat + 4 ≤ stackTop m.sched m.sched.currentTask ∧
    m.regs.esp.toNat + 4 < 2 ^ 32 ∧
    ∀ x, Saved m.sched x ∨ m.regs.esp.toNat + 4 - frameSize ≤ x ∧ x < m.regs.esp.toNat + 4 →
      code m.yielded x = m.yielded x
  | .createTask _ stack _ _ _ => FreshStack boot m.sched stack
  | .createUserTask _ stack _ _ _ argv => FreshStack boot m.sched stack ∧ argv.length ≤ 16
  | .wake _ => True
  | .exit _ => m.sched.currentTask ≠ m.sched.idleTask
  | .taskExit => m.sched.currentTask ≠ m.sched.idleTask

/-- One step of the machine. -/
def Step (boot : ℕ) (m : Machine) (e : Event) (m' : Machine) : Prop :=
  Ok boot m e ∧ m.step e = some m'

/-- The machine when `scheduler_init` has run. -/
def start (kernelDir : ℕ) (fds : FdTable) (mem : ℕ → UInt8) (regs : Regs) : Machine :=
  { sched := schedulerInit kernelDir fds, mem, regs }

end Machine

end Mboot.Cpu
