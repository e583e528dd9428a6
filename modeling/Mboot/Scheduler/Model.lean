import Mboot.Common.Run
import Mboot.Common.Ring

/-!
# The round-robin scheduler

Model of the task list of `stage2/scheduler.c`: task control blocks, the
circular list anchored at the idle task, the selection loop, blocking, waking,
exit and the linking of new tasks.

* A `tcb_t *` is the number of the `kmalloc` call that allocated the block, so
  `Sched.tcb` is the memory of all blocks and `Sched.count` the number
  allocated so far. After `scheduler_init`, `current_task` and `idle_task` are
  never `NULL`, and the `NULL` guards of the source are not modelled.
* The loops over the list have no bound in the source. They take a fuel of
  `count` rounds here and return `none` when it runs out: a walk that has not
  ended after one round over all allocated blocks repeats itself for ever.
* `scheduler_block` runs with interrupts disabled from its first statement to
  the switch, and is one step.
-/

namespace Mboot.Scheduler

/-- `MAX_FDS_PER_PROCESS` (inc/fd.h). -/
abbrev maxFds : ℕ := 16

/-- `fd_table_t` (inc/fd.h): slot `i` holds the handle of descriptor `i`, or `-1`. -/
abbrev FdTable := Fin maxFds → ℤ

/-- `TASK_STACK_SIZE` (inc/scheduler.h). -/
abbrev taskStackSize : ℕ := 64 * 1024

/-- A task control block is never freed and takes at least 112 bytes of the
    32-bit address space with its header; `kmalloc` halts when there is no
    room. -/
abbrev maxTasks : ℕ := 2 ^ 32 / 112

/-- `task_state_t` (inc/scheduler.h). -/
inductive TaskState
  | ready | running | blocked | exited
  deriving DecidableEq, Repr

/-- `tcb_t` (inc/scheduler.h). `waitObj` is a `void *` as its numeric value;
    `next` is the number of the next block. -/
structure Tcb where
  esp : ℕ
  state : TaskState
  pid : ℕ
  stackBase : ℕ
  cr3 : ℕ
  tty : ℤ
  fds : FdTable
  waitObj : ℕ
  exitCode : ℤ
  next : ℕ

/-- The scheduler's globals (scheduler.c lines 15–17), the allocated task
    control blocks and the CPU's `CR3` register. `tcb` is the one copy of each
    block that all directories show; `Spaces` says when there are others. -/
structure Sched where
  tcb : ℕ → Tcb
  count : ℕ
  currentTask : ℕ
  idleTask : ℕ
  nextPid : ℕ
  cr3 : ℕ

namespace Sched

/-- Replace block `t`. -/
def setTcb (s : Sched) (t : ℕ) (b : Tcb) : Sched := { s with tcb := Function.update s.tcb t b }

/-- `t->state = st`. -/
def setState (s : Sched) (t : ℕ) (st : TaskState) : Sched :=
  s.setTcb t { s.tcb t with state := st }

/-- The `next` pointers as a function. -/
def next (s : Sched) (t : ℕ) : ℕ := (s.tcb t).next

/-- The state of task `t`. -/
abbrev state (s : Sched) (t : ℕ) : TaskState := (s.tcb t).state

/-- The control block of `current_task`. -/
abbrev current (s : Sched) : Tcb := s.tcb s.currentTask

@[simp] theorem setTcb_tcb_self (s : Sched) (t : ℕ) (b : Tcb) : (s.setTcb t b).tcb t = b := by
  simp [setTcb]

theorem setTcb_tcb_of_ne (s : Sched) {t u : ℕ} (b : Tcb) (h : u ≠ t) :
    (s.setTcb t b).tcb u = s.tcb u := by
  simp [setTcb, h]

/-- A field that the new block has from the old one. -/
theorem setTcb_field {β : Type*} (field : Tcb → β) {s : Sched} {t : ℕ} {b : Tcb}
    (h : field b = field (s.tcb t)) (u : ℕ) : field ((s.setTcb t b).tcb u) = field (s.tcb u) := by
  by_cases hu : u = t
  · rw [hu, setTcb_tcb_self, h]
  · rw [setTcb_tcb_of_ne s b hu]

theorem setTcb_next {s : Sched} {t : ℕ} {b : Tcb} (h : b.next = (s.tcb t).next) :
    (s.setTcb t b).next = s.next :=
  funext (setTcb_field Tcb.next h)

theorem setTcb_state (s : Sched) (t : ℕ) (b : Tcb) (u : ℕ) :
    (s.setTcb t b).state u = if u = t then b.state else s.state u := by
  by_cases hu : u = t
  · rw [hu, if_pos rfl, state, setTcb_tcb_self]
  · rw [if_neg hu, state, setTcb_tcb_of_ne s b hu]

@[simp] theorem setTcb_count (s : Sched) (t : ℕ) (b : Tcb) : (s.setTcb t b).count = s.count := rfl

@[simp] theorem setTcb_currentTask (s : Sched) (t : ℕ) (b : Tcb) :
    (s.setTcb t b).currentTask = s.currentTask := rfl

@[simp] theorem setTcb_idleTask (s : Sched) (t : ℕ) (b : Tcb) :
    (s.setTcb t b).idleTask = s.idleTask := rfl

end Sched

/-! ## Initialisation and task creation -/

/-- `scheduler_init` (scheduler.c lines 250–267): the boot context becomes the
    idle task. `kernelDir` is `paging_get_kernel_directory()`; `fds` is the
    table `vfs_init_fds` fills in. `next_pid` is a zero-initialised static. -/
def schedulerInit (kernelDir : ℕ) (fds : FdTable) : Sched where
  tcb := fun _ =>
    { esp := 0, state := .running, pid := 0, stackBase := 0, cr3 := kernelDir, tty := 0,
      fds := fds, waitObj := 0, exitCode := 0, next := 0 }
  count := 1
  currentTask := 0
  idleTask := 0
  nextPid := 1
  cr3 := kernelDir

/-- The fields in which the three ways of making a task differ; the rest is
    common to `create_task`, `create_user_task_from_segments` and
    `fork_current`. -/
structure NewTask where
  esp : ℕ
  stackBase : ℕ
  cr3 : ℕ
  tty : ℤ
  fds : FdTable

/-- The common end of `create_task` (lines 290–302),
    `create_user_task_from_segments` (lines 404–421) and `fork_current`
    (lines 536–547): a `TASK_READY` block with the next PID, no exit code and
    no wait object is linked right behind the idle task. -/
def linkTask (s : Sched) (n : NewTask) : Sched :=
  let tcb : Tcb :=
    { esp := n.esp, state := .ready, pid := s.nextPid, stackBase := n.stackBase, cr3 := n.cr3,
      tty := n.tty, fds := n.fds, waitObj := 0, exitCode := 0, next := s.next s.idleTask }
  let s := { s.setTcb s.count tcb with count := s.count + 1, nextPid := (s.nextPid + 1) % 2 ^ 32 }
  s.setTcb s.idleTask { s.tcb s.idleTask with next := s.count - 1 }

/-- `create_task` (lines 271–307) on a stack at `stack`; `fds` is the table
    `task_init_fds` fills in. Thirteen words are pushed on the new stack. -/
def createTask (s : Sched) (kernelDir stack : ℕ) (fds : FdTable) : Sched :=
  linkTask s
    { esp := (stack + taskStackSize - 13 * 4) % 2 ^ 32, stackBase := stack, cr3 := kernelDir,
      tty := s.current.tty, fds := fds }

/-- The scheduler's part of `create_user_task_from_segments` (lines 404–421):
    the task starts from the frame at `esp` in the directory `dir`; without a
    terminal argument (`tty < 0`) it inherits the caller's. -/
def createUserTask (s : Sched) (dir stack esp : ℕ) (tty : ℤ) (fds : FdTable) : Sched :=
  linkTask s
    { esp := esp, stackBase := stack, cr3 := dir,
      tty := if tty ≥ 0 then tty else s.current.tty, fds := fds }

/-- The scheduler's part of `fork_current` (lines 510–512 and 536–554). `dir`
    is the cloned directory, `esp` the address of the child's frame and `fds`
    the table `vfs_fork_fds` fills in. The idle task cannot fork. -/
def forkCurrent (s : Sched) (dir esp : ℕ) (fds : FdTable) : ℤ × Sched :=
  if s.currentTask = s.idleTask then (-1, s)
  else (s.nextPid, linkTask s
    { esp := esp, stackBase := 0, cr3 := dir, tty := s.current.tty, fds := fds })

/-! ## Choosing a task -/

/-- The `do … while` walk of `scheduler_schedule` (lines 438–442): the first
    task after `t` that is `TASK_READY` or `TASK_RUNNING`, or `current_task`
    when the walk comes back to it. -/
def findRunnable (s : Sched) : ℕ → ℕ → Option ℕ
  | 0, _ => none
  | fuel + 1, t =>
    let next := s.next t
    if next ≠ s.currentTask ∧ s.state next ≠ .ready ∧ s.state next ≠ .running then
      findRunnable s fuel next
    else some next

/-- What `scheduler_schedule` does with the task its walk found (lines 444–457). -/
def switchTo (s : Sched) (next : ℕ) : Sched :=
  let s :=
    if next ≠ s.currentTask then { s with currentTask := next }.setState next .running
    else if s.current.state = .blocked then s.setState s.currentTask .running
    else s
  if s.current.cr3 ≠ s.cr3 then { s with cr3 := s.current.cr3 } else s

/-- `scheduler_schedule` (lines 433–458). -/
def schedulerSchedule (s : Sched) : Option Sched :=
  (findRunnable s s.count s.currentTask).map (switchTo s)

/-- What `scheduler_tick` does before it schedules (lines 465–469). -/
def preempt (s : Sched) (r : ℕ) : Sched :=
  s.setTcb s.currentTask
    { s.current with
      esp := r
      state := if s.current.state = .running then .ready else s.current.state }

/-- `scheduler_tick` (lines 460–474), called with the interrupted frame at `r`.
    It returns the `esp` of the task that is then current. -/
def schedulerTick (s : Sched) (r : ℕ) : Option Sched := schedulerSchedule (preempt s r)

/-- `scheduler_perform_switch` (lines 478–482). -/
def schedulerPerformSwitch (s : Sched) (oldEsp : ℕ) : Option Sched :=
  schedulerSchedule (s.setTcb s.currentTask { s.current with esp := oldEsp })

/-- `scheduler_block` (lines 487–492): mark the current task blocked on
    `waitObj` and switch away; `scheduler_switch` builds the frame at `frame`. -/
def schedulerBlock (s : Sched) (waitObj frame : ℕ) : Option Sched :=
  schedulerPerformSwitch
    (s.setTcb s.currentTask { s.current with waitObj := waitObj, state := .blocked }) frame

/-- One round of the loop of `scheduler_wake` at task `t`. -/
def wakeTask (s : Sched) (waitObj t : ℕ) : Sched :=
  if s.state t = .blocked ∧ (s.tcb t).waitObj = waitObj then s.setState t .ready else s

/-- The `do … while (t != idle_task)` loop of `scheduler_wake` (lines 500–505). -/
def wakeLoop (waitObj : ℕ) : ℕ → Sched → ℕ → Option Sched
  | 0, _, _ => none
  | fuel + 1, s, t =>
    let s := wakeTask s waitObj t
    let t := s.next t
    if t ≠ s.idleTask then wakeLoop waitObj fuel s t else some s

/-- `scheduler_wake` (lines 496–506). The null object wakes nobody. -/
def schedulerWake (s : Sched) (waitObj : ℕ) : Option Sched :=
  if waitObj = 0 then some s else wakeLoop waitObj s.count s s.idleTask

/-! ## Exit -/

/-- Lines 561–563 and 569–571: `TASK_EXITED`, the exit code, and a wake on the
    PID. -/
def markExited (s : Sched) (exitCode : ℤ) : Option Sched :=
  schedulerWake
    (s.setTcb s.currentTask { s.current with state := .exited, exitCode := exitCode })
    s.current.pid

/-- `scheduler_exit_current` (lines 556–566) without its call of
    `vfs_exit_fds`. It returns to the caller: the task stays current until the
    next switch. -/
def schedulerExitCurrent (s : Sched) (exitCode : ℤ) : Option Sched :=
  if s.currentTask = s.idleTask then some s else markExited s exitCode

/-- `task_exit` (lines 568–576) up to its endless `cli; hlt` loop. -/
def taskExit (s : Sched) : Option Sched := markExited s 0

/-! ## Finding a task -/

/-- The loop of `scheduler_find_by_pid` (lines 60–64). -/
def findByPidLoop (s : Sched) (pid : ℤ) : ℕ → ℕ → Option (Option ℕ)
  | 0, _ => none
  | fuel + 1, t =>
    if ((s.tcb t).pid : ℤ) = pid then some (some t)
    else if s.next t ≠ s.idleTask then findByPidLoop s pid fuel (s.next t) else some none

/-- `scheduler_find_by_pid` (lines 56–66). The outer `Option` is the end of the
    loop, the inner one the returned pointer. PIDs are below `2 ^ 31`, so the
    cast `(int)t->pid` is the identity. -/
def schedulerFindByPid (s : Sched) (pid : ℤ) : Option (Option ℕ) :=
  if pid < 0 then some none else findByPidLoop s pid s.count s.idleTask

end Mboot.Scheduler
