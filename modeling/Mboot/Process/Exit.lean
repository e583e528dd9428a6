import Mboot.Scheduler.LostWakeup
import Mboot.Vfs.ControllingTty

/-!
# What a task can do after `exit`

`scheduler_exit_current` closes the descriptors of the current task, marks it
`TASK_EXITED` and returns; the task goes on after its `int 0x80` until the next
tick. `task_exit`, the end of a kernel task, halts instead. Here the tasks of the
scheduler make the system calls of `idt.c`, any call after any other.

A call that sleeps is its calls of `scheduler_block`, which are steps of their
own, and the rest. `waitpid`, `sendto` and `recvfrom` do nothing else to the
tasks, and what they do to sockets is among the changes of the backends that may
happen at any time.

* `exit_final_iff`: a task that has exited stays so, with an empty descriptor
  table, exactly if it does not sleep and puts nothing into a descriptor before
  the next tick.
* `exited_task_comes_back`: a task that calls `waitpid` after `exit`, and one that
  calls `socket`.
-/

namespace Mboot.Process

open Common Scheduler Vfs Fat16 Net

variable {τ ν : Type*}

/-! ## The system -/

/-- The tasks, the backends of the VFS, and a record of the tasks that have been
    `TASK_EXITED`. -/
structure Machine (τ ν : Type*) where
  sched : Sched
  back : Backends τ ν
  gone : ℕ → Bool

inductive MachineEvent (τ ν : Type*)
  | tick (r : ℕ)
  | wake (waitObj : ℕ)
  /-- the current task sleeps inside a system call -/
  | block (waitObj frame : ℕ)
  /-- keys, packets, and calls that change nothing but the backends -/
  | backends (b : Backends τ ν)
  | exit (code : ℤ)
  /-- `dir` is the cloned directory and `esp` the child's frame -/
  | fork (dir esp : ℕ)
  /-- `open`, `socket`, `bind`, `read`, `write`, `close`, `dup2` -/
  | vfs (c : Call)
  | ioctl (request arg : UInt32)
  /-- `dir`, `esp` and `stack` are those of the new image -/
  | exec (path : Option (List Char)) (found : Option DirEntry) (buf : ℕ) (loads : Bool)
      (esi : UInt32) (dir esp stack : ℕ)

/-- What the VFS sees of a task. -/
def procOf (b : Tcb) : Proc := ⟨b.fds, b.tty, b.state = .exited⟩

/-- What the VFS sees of the tasks. -/
def Machine.kernel (m : Machine τ ν) : Kernel τ ν where
  procs t := procOf (m.sched.tcb t)
  count := m.sched.count
  back := m.back

/-- The current task with another table and terminal. -/
def setProc (s : Sched) (p : Proc) : Sched :=
  s.setTcb s.currentTask { s.current with fds := p.fds, tty := p.tty }

/-- `scheduler_exit_current` (scheduler.c lines 556–566). -/
def exitCurrent (s : Sched) (b : Backends τ ν) (code : ℤ) : Option (Sched × Backends τ ν) :=
  if s.currentTask = s.idleTask then some (s, b)
  else
    let (fds, b) := vfsExitFds b s.current.fds
    (markExited (s.setTcb s.currentTask { s.current with fds := fds }) code).map fun s => (s, b)

/-- The commit of `scheduler_exec_replace` (scheduler.c lines 208–213). -/
def execTcb (b : Tcb) (tty : ℤ) (dir esp stack : ℕ) : Tcb :=
  let p := execCommit (procOf b) tty
  { b with fds := p.fds, tty := p.tty, cr3 := dir, esp := esp, stackBase := stack }

/-- The calls that do more than the VFS sees. -/
def changesTasks : Call → Bool
  | .fork | .exit => true
  | _ => false

/-- The tasks and the backends after an event. -/
def Machine.next (dev : Devices τ ν) (m : Machine τ ν) :
    MachineEvent τ ν → Option (Sched × Backends τ ν)
  | .tick r => (schedulerTick m.sched r).map fun s => (s, m.back)
  | .wake waitObj => (schedulerWake m.sched waitObj).map fun s => (s, m.back)
  | .block waitObj frame =>
    -- the idle task makes no system call
    if m.sched.currentTask = m.sched.idleTask then none
    else (schedulerBlock m.sched waitObj frame).map fun s => (s, m.back)
  | .backends b => some (m.sched, b)
  | .exit code => exitCurrent m.sched m.back code
  | .fork dir esp =>
    if m.sched.currentTask = m.sched.idleTask then some (m.sched, m.back)
    else if m.sched.count < maxTasks then
      let (fds, b) := vfsForkFds m.back m.sched.current.fds
      some ((Scheduler.forkCurrent m.sched dir esp fds).2, b)
    else none
  | .vfs c =>
    if changesTasks c then none
    else (m.kernel.call dev m.sched.currentTask c).map fun (_, k) =>
      (setProc m.sched (k.procs m.sched.currentTask), k.back)
  | .ioctl request arg =>
    some (setProc m.sched (sysIoctl (procOf m.sched.current) request arg).2, m.back)
  | .exec path found buf loads esi dir esp stack =>
    (execElf dev m.back m.sched.current.tty path found buf).map fun (read, b) =>
      if read ∧ loads ∧ m.sched.currentTask ≠ m.sched.idleTask then
        ({ m.sched.setTcb m.sched.currentTask
            (execTcb m.sched.current (int32 esi.toNat) dir esp stack) with cr3 := dir }, b)
      else (m.sched, b)

/-- The tasks that are `TASK_EXITED` go on record. -/
def Machine.record (m : Machine τ ν) (s : Sched) (b : Backends τ ν) : Machine τ ν where
  sched := s
  back := b
  gone t := m.gone t || decide (t < s.count ∧ s.state t = .exited)

def Machine.step (dev : Devices τ ν) (m : Machine τ ν) (e : MachineEvent τ ν) :
    Option (Machine τ ν) :=
  (m.next dev e).map fun (s, b) => m.record s b

/-- No descriptor is in use. -/
def EmptyTable (table : FdTable) : Prop := ∀ i, table i = emptyHandle

instance (table : FdTable) : Decidable (EmptyTable table) := inferInstanceAs (Decidable (∀ _, _))

/-- Every task that has exited is `TASK_EXITED` and has no descriptors. -/
def ExitFinal (m : Machine τ ν) : Prop :=
  ∀ t < m.sched.count, m.gone t = true →
    m.sched.state t = .exited ∧ EmptyTable (m.sched.tcb t).fds

instance (m : Machine τ ν) : Decidable (ExitFinal m) :=
  inferInstanceAs (Decidable (∀ t < _, _ → _))

/-- A current task that has exited does not sleep, opens nothing, and selects no
    terminal. -/
def StaysExited (m : Machine τ ν) (e : MachineEvent τ ν) : Prop :=
  m.gone m.sched.currentTask = true →
    match e with
    | .block _ _ => False
    | .vfs (.open path found) =>
      (fileOpen m.back m.sched.current.tty path found).1 = emptyHandle
    | .vfs (.socket domain type protocol) =>
      socketHandleValid (socketCreate m.back.sockets domain type protocol).2
        (socketCreate m.back.sockets domain type protocol).1 = false
    | .ioctl request arg =>
      ¬ (request = tiocsctty ∧ 0 ≤ int32 arg.toNat ∧ int32 arg.toNat < ttyCount)
    | .exec path found _ loads esi _ _ _ =>
      ¬ (0 ≤ (fileOpen m.back m.sched.current.tty path found).1 ∧ loads = true ∧
        0 ≤ int32 esi.toNat)
    | _ => True

instance (m : Machine τ ν) (e : MachineEvent τ ν) : Decidable (StaysExited m e) := by
  unfold StaysExited
  refine @instDecidableForall _ _ _ ?_
  split <;> infer_instance

/-- Right after boot, or any time before the first exit. -/
structure Machine.Started (m : Machine τ ν) : Prop where
  sched : SchedInv m.sched
  alive : ∀ t < m.sched.count, m.sched.state t ≠ .exited
  gone : ∀ t, m.gone t = false

/-! ## Tables without descriptors -/

variable {b : Backends τ ν} {table : FdTable}

theorem EmptyTable.fdSlot (h : EmptyTable table) (fd : ℤ) : fdSlot table fd = none := by
  cases hs : Vfs.fdSlot table fd with
  | none => rfl
  | some i => exact absurd (h i) (fdSlot_eq_some.mp hs).2

/-- A handle attached to an empty table goes to descriptor 0. -/
theorem EmptyTable.attach (h : EmptyTable table) (handle : ℤ) :
    vfsAttachHandle table handle = (0, Function.update table 0 handle) := by
  have hfind : ((List.finRange maxFds).find? fun i => table i == emptyHandle) = some 0 := by
    have hall : (fun i => table i == emptyHandle) = fun _ => true := by
      funext i
      rw [h i, beq_self_eq_true]
    rw [hall]
    rfl
  rw [vfsAttachHandle, hfind]
  rfl

theorem not_emptyTable_update {handle : ℤ} (hne : handle ≠ emptyHandle) :
    ¬ EmptyTable (Function.update table 0 handle) := fun h =>
  hne ((Function.update_self ..).symm.trans (h 0))

theorem EmptyTable.open_iff (h : EmptyTable table) (tty : ℤ) (path : Option (List Char))
    (found : Option DirEntry) :
    EmptyTable (vfsOpen b table tty path found).2.1 ↔
      (fileOpen b tty path found).1 = emptyHandle := by
  rw [vfsOpen_eq, installHandle]
  split_ifs with hempty
  · exact iff_of_true h hempty
  · rw [h.attach]
    exact iff_of_false (not_emptyTable_update hempty) hempty

theorem EmptyTable.socket_iff (h : EmptyTable table) (domain type protocol : ℤ) :
    EmptyTable (sysSocket b table domain type protocol).2.1 ↔
      socketHandleValid (socketCreate b.sockets domain type protocol).2
        (socketCreate b.sockets domain type protocol).1 = false := by
  unfold sysSocket
  dsimp only
  by_cases hv : socketHandleValid (socketCreate b.sockets domain type protocol).2
      (socketCreate b.sockets domain type protocol).1 = true
  · rw [if_pos hv, h.attach]
    refine iff_of_false (not_emptyTable_update ?_) (by rw [hv]; decide)
    obtain ⟨i, hi, -⟩ := socketHandleValid_iff.mp hv
    rw [hi]
    show (-4096 : ℤ) - (i.val : ℤ) ≠ -1
    omega
  · rw [if_neg hv]
    exact iff_of_true h (Bool.not_eq_true _ ▸ hv)

/-- A table bound to a terminal is not empty. -/
theorem not_emptyTable_bind (table : FdTable) (tty : ℤ) : ¬ EmptyTable (vfsBindTty table tty) := by
  intro h
  have h0 := h 0
  simp only [vfsBindTty, devTtyBase, emptyHandle, ttyCount] at h0
  rw [if_pos (by decide)] at h0
  split_ifs at h0 <;> omega

/-- An `exec` with a terminal fills the table. -/
theorem execTcb_emptyTable_iff {b : Tcb} (h : EmptyTable b.fds) {tty : ℤ} {dir esp stack : ℕ} :
    EmptyTable (execTcb b tty dir esp stack).fds ↔ ¬ 0 ≤ tty := by
  unfold execTcb execCommit
  split_ifs with htty
  · exact iff_of_false (not_emptyTable_bind _ _) fun hneg => hneg htty
  · exact iff_of_true h htty

/-- `exec` goes on with a file that could be opened. -/
theorem execElf_read {dev : Devices τ ν} {tty : ℤ} {path : Option (List Char)}
    {found : Option DirEntry} {buf : ℕ} {read : Bool} {b' : Backends τ ν}
    (h : execElf dev b tty path found buf = some (read, b')) :
    read = true ↔ 0 ≤ (fileOpen b tty path found).1 := by
  unfold execElf at h
  dsimp only at h
  split_ifs at h with hneg
  · cases h
    exact iff_of_false (by decide) (by omega)
  · obtain ⟨r, -, hr⟩ := Option.map_eq_some_iff.mp h
    cases hr
    exact iff_of_true rfl (by omega)

/-- `vfs_exit_fds` leaves no descriptor. -/
theorem exitLoop_empty (is : List (Fin maxFds)) (table : FdTable) (b : Backends τ ν) (j : Fin maxFds)
    (hj : j ∈ is ∨ table j = emptyHandle) : (exitLoop is table b).1 j = emptyHandle := by
  induction is generalizing table b with
  | nil => exact hj.resolve_left (List.not_mem_nil)
  | cons i is ih =>
    rw [exitLoop, exitFd_eq]
    split_ifs with hi
    · refine ih _ _ ?_
      rcases hj with hj | hj
      · rcases List.mem_cons.mp hj with rfl | hj
        · exact .inr hi
        · exact .inl hj
      · exact .inr hj
    · refine ih _ _ ?_
      by_cases hji : j = i
      · subst hji
        exact .inr (Function.update_self ..)
      · rcases hj with hj | hj
        · exact .inl ((List.mem_cons.mp hj).resolve_left hji)
        · exact .inr ((Function.update_of_ne hji ..).trans hj)

theorem vfsExitFds_empty (b : Backends τ ν) (table : FdTable) :
    EmptyTable (vfsExitFds b table).1 := by
  intro j
  rw [vfsExitFds]
  exact exitLoop_empty _ table b j (.inl (List.mem_finRange j))

/-! ## What the scheduler does to states and tables -/

section Touches

variable {s c : Sched}

/-- `c` is `s` after an event: the current task has the table `fds` and has
    exited if `exits`; for the other tasks nothing of this has changed. -/
structure Touches (s c : Sched) (exits : Prop) (fds : FdTable) : Prop where
  sched : SchedInv c
  count_le : s.count ≤ c.count
  others : ∀ t < s.count, t ≠ s.currentTask →
    (c.state t = .exited ↔ s.state t = .exited) ∧ (c.tcb t).fds = (s.tcb t).fds
  own : c.state s.currentTask = .exited ↔ exits
  table : (c.tcb s.currentTask).fds = fds
  new : ∀ t, s.count ≤ t → t < c.count → c.state t ≠ .exited

theorem touches_of_effect {sig : Option ℕ} {exits : Prop} {fds : FdTable} (hinv : SchedInv c)
    (he : Effect sig s c) (hown : c.state s.currentTask = .exited ↔ exits)
    (htable : (c.tcb s.currentTask).fds = fds) : Touches s c exits fds :=
  ⟨hinv, he.count_le, fun t ht hne => ⟨(he.others t ht hne).exited, (he.others t ht hne).fds⟩, hown,
    htable, he.fresh⟩

/-- The current task is not touched either. -/
theorem touches_of_sleeps {sig : Option ℕ} (hinv : SchedInv c) (he : Effect sig s c)
    (hown : Sleeps sig s.current (c.tcb s.currentTask)) :
    Touches s c (s.state s.currentTask = .exited) s.current.fds :=
  touches_of_effect hinv he hown.exited hown.fds

/-- A new control block for the current task with its links and state. -/
theorem schedInv_setCurrent (h : SchedInv s) {b : Tcb} (hnext : b.next = s.current.next)
    (hstate : b.state = s.current.state) : SchedInv (s.setTcb s.currentTask b) := by
  have hst : ∀ t, (s.setTcb s.currentTask b).state t = s.state t :=
    Sched.setTcb_field Tcb.state hstate
  refine ⟨h.ring.of_next_eq rfl rfl (Sched.setTcb_next hnext), h.current_lt, fun t ht hrun => ?_, ?_, ?_⟩
  · exact h.running t ht (by rw [← hst]; exact hrun)
  · show Runnable ((s.setTcb s.currentTask b).state s.idleTask)
    rw [hst]
    exact h.idle
  · show (s.setTcb s.currentTask b).state s.currentTask ≠ .blocked
    rw [hst]
    exact h.current_awake

/-- The current task gets another table; the rest of its block matters to
    nobody, and neither does the CPU's directory. -/
theorem touches_setCurrent (h : SchedInv s) (b : Tcb) (hnext : b.next = s.current.next)
    (hstate : b.state = s.current.state) (cr3 : ℕ) :
    Touches s { s.setTcb s.currentTask b with cr3 := cr3 } (s.state s.currentTask = .exited)
      b.fds := by
  have hset := schedInv_setCurrent h hnext hstate
  have he : Effect none s { s.setTcb s.currentTask b with cr3 := cr3 } :=
    ⟨le_rfl, rfl, (setTcb_effect s b).others, (setTcb_effect s b).fresh, fun h => absurd rfl h⟩
  refine touches_of_effect ⟨hset.ring.of_next_eq rfl rfl rfl, hset.current_lt, hset.running,
    hset.idle, hset.current_awake⟩ he ?_ ?_
  · simp only [Sched.state]
    rw [Sched.setTcb_tcb_self, hstate]
  · show ((s.setTcb s.currentTask b).tcb s.currentTask).fds = b.fds
    rw [Sched.setTcb_tcb_self]

theorem touches_setProc (h : SchedInv s) (p : Proc) :
    Touches s (setProc s p) (s.state s.currentTask = .exited) p.fds :=
  touches_setCurrent h { s.current with fds := p.fds, tty := p.tty } rfl rfl s.cr3

/-- `exit` marks the task and leaves it the table `vfs_exit_fds` has made. -/
theorem touches_exit (h : SchedInv s) (hi : s.currentTask ≠ s.idleTask) (fds : FdTable) {code : ℤ}
    (hs : markExited (s.setTcb s.currentTask { s.current with fds := fds }) code = some c) :
    Touches s c True fds := by
  have h₁ : SchedInv (s.setTcb s.currentTask { s.current with fds := fds }) :=
    schedInv_setCurrent h rfl rfl
  obtain ⟨c', hc', hinv⟩ := h₁.markExited hi code
  cases hc'.symm.trans hs
  -- both stores go to one block
  have hmark : exitedCurrent (s.setTcb s.currentTask { s.current with fds := fds }) code =
      s.setTcb s.currentTask { s.current with fds := fds, state := .exited, exitCode := code } := by
    simp [exitedCurrent, Sched.setTcb, Sched.current]
  have h₂ := h₁.exitedCurrent hi code
  rw [markExited_eq, hmark] at hs
  rw [hmark] at h₂
  obtain ⟨he, hcur, hcount, hall, -⟩ := wake_effect h₂.ring hs
  have hown := hall _ h₂.current_lt
  simp only [Sched.setTcb_currentTask, Sched.setTcb_tcb_self] at hown
  have hothers : ∀ t < s.count, t ≠ s.currentTask → Sleeps _ (s.tcb t) (c.tcb t) :=
    fun t ht hne => ((setTcb_effect s _).others t ht hne).trans (hall t ht)
  exact touches_of_effect hinv (.of_count hcount he.idle hothers fun hne => absurd hcur hne)
    (iff_true_intro (hown.exited.mpr rfl)) hown.fds

end Touches

/-! ## One event -/

variable {dev : Devices τ ν} {m m' : Machine τ ν} {e : MachineEvent τ ν}

/-- What holds in every state. -/
structure MachineOk (m : Machine τ ν) : Prop where
  sched : SchedInv m.sched
  fresh : ∀ t, m.sched.count ≤ t → m.gone t = false
  gone_of_exited : ∀ t < m.sched.count, m.sched.state t = .exited → m.gone t = true

theorem Machine.Started.ok (h : m.Started) : MachineOk m :=
  ⟨h.sched, fun t _ => h.gone t, fun t ht he => absurd he (h.alive t ht)⟩

theorem Machine.Started.exitFinal (h : m.Started) : ExitFinal m := by
  intro t _ hgone
  rw [h.gone t] at hgone
  cases hgone

section Record

variable {c : Sched} {b : Backends τ ν} {exits : Prop} {fds : FdTable}

theorem Touches.ok (h : Touches m.sched c exits fds) (hok : MachineOk m) (b : Backends τ ν) :
    MachineOk (m.record c b) := by
  refine ⟨h.sched, fun t ht => ?_, fun t ht he => ?_⟩
  · have hlt : c.count ≤ t := ht
    have hle := h.count_le
    simp only [Machine.record, hok.fresh t (by omega), Bool.false_or, decide_eq_false_iff_not]
    omega
  · have he' : t < c.count ∧ c.state t = .exited := ⟨ht, he⟩
    simp only [Machine.record, decide_eq_true he', Bool.or_true]

/-- Exits are final after the event exactly if they are for the current task. -/
theorem Touches.exitFinal_iff (h : Touches m.sched c exits fds) (hok : MachineOk m)
    (hm : ExitFinal m) (b : Backends τ ν) :
    ExitFinal (m.record c b) ↔
      (m.gone m.sched.currentTask = true ∨ exits → exits ∧ EmptyTable fds) := by
  have hcur := hok.sched.current_lt
  have hle := h.count_le
  have hgone : ∀ t, (m.record c b).gone t = true ↔
      m.gone t = true ∨ t < c.count ∧ c.state t = .exited := by
    intro t
    simp only [Machine.record, Bool.or_eq_true, decide_eq_true_eq]
  constructor
  · intro hfinal hor
    have hrec : (m.record c b).gone m.sched.currentTask = true :=
      (hgone _).mpr (hor.imp_right fun hex => ⟨by omega, h.own.mpr hex⟩)
    obtain ⟨hst, htab⟩ := hfinal m.sched.currentTask (show _ < c.count by omega) hrec
    refine ⟨h.own.mp hst, ?_⟩
    rw [← h.table]
    exact htab
  · intro hown t ht hrec
    have ht' : t < c.count := ht
    by_cases hnew : m.sched.count ≤ t
    · rcases (hgone t).mp hrec with hg | ⟨-, he⟩
      · rw [hok.fresh t hnew] at hg
        cases hg
      · exact absurd he (h.new t hnew ht')
    by_cases htc : t = m.sched.currentTask
    · subst htc
      obtain ⟨hex, htab⟩ := hown (((hgone _).mp hrec).imp_right fun he => h.own.mp he.2)
      refine ⟨h.own.mpr hex, ?_⟩
      rw [← h.table] at htab
      exact htab
    · obtain ⟨hst, hfds⟩ := h.others t (by omega) htc
      have hbefore : m.gone t = true := by
        rcases (hgone t).mp hrec with hg | ⟨-, he⟩
        · exact hg
        · exact hok.gone_of_exited t (by omega) (hst.mp he)
      obtain ⟨he, htab⟩ := hm t (by omega) hbefore
      refine ⟨hst.mpr he, ?_⟩
      show EmptyTable (c.tcb t).fds
      rw [hfds]
      exact htab

end Record

/-- For a task that has exited, the table after a call of the VFS is empty
    exactly if the call opens nothing. -/
theorem call_emptyTable_iff (htab : EmptyTable m.sched.current.fds) {c : Call} {ret : ℤ}
    {k : Kernel τ ν} (hvfs : changesTasks c = false)
    (hcall : m.kernel.call dev m.sched.currentTask c = some (ret, k)) :
    EmptyTable (k.procs m.sched.currentTask).fds ↔
      match c with
      | .open path found => (fileOpen m.back m.sched.current.tty path found).1 = emptyHandle
      | .socket domain type protocol =>
        socketHandleValid (socketCreate m.back.sockets domain type protocol).2
          (socketCreate m.back.sockets domain type protocol).1 = false
      | _ => True := by
  have hsame : (k.procs m.sched.currentTask).fds = m.sched.current.fds →
      (EmptyTable (k.procs m.sched.currentTask).fds ↔ True) := by
    intro heq
    rw [heq]
    exact iff_true_intro htab
  have hupdate : ∀ fds b, (m.kernel.update m.sched.currentTask fds b).procs m.sched.currentTask =
      { procOf m.sched.current with fds := fds } := fun fds b => Function.update_self ..
  cases c with
  | «open» path found =>
    cases hcall
    rw [hupdate]
    exact htab.open_iff _ path found
  | socket domain type protocol =>
    cases hcall
    rw [hupdate]
    exact htab.socket_iff domain type protocol
  | bind fd port =>
    cases hcall
    exact hsame rfl
  | read fd size dst =>
    obtain rfl | ⟨i, out, b, -, -, rfl⟩ := Kernel.call_read hcall
    · exact hsame rfl
    · exact hsame rfl
  | write fd src data =>
    obtain rfl | ⟨i, -, rfl⟩ := Kernel.call_write hcall
    · exact hsame rfl
    · exact hsame rfl
  | close fd =>
    cases hcall
    refine hsame ?_
    rw [hupdate]
    show (sysClose m.back m.sched.current.fds fd).2.1 = m.sched.current.fds
    unfold sysClose vfsClose
    rw [htab.fdSlot fd]
    split_ifs <;> rfl
  | dup2 oldfd newfd =>
    cases hcall
    refine hsame ?_
    rw [hupdate]
    show (vfsDup2 m.back m.sched.current.fds m.sched.current.tty oldfd newfd).2.1 = _
    unfold vfsDup2
    rw [htab.fdSlot oldfd]
  | fork | exit => cases hvfs

theorem ExitFinal.current (hm : ExitFinal m) (hok : MachineOk m) :
    m.gone m.sched.currentTask = true ↔ m.sched.state m.sched.currentTask = .exited :=
  ⟨fun h => (hm _ hok.sched.current_lt h).1, hok.gone_of_exited _ hok.sched.current_lt⟩

/-- What an event does to the tasks, and that `StaysExited` says when exits are
    still final. -/
def Settles (m : Machine τ ν) (e : MachineEvent τ ν) (c : Sched) : Prop :=
  ∃ exits fds, Touches m.sched c exits fds ∧
    (ExitFinal m → ((m.gone m.sched.currentTask = true ∨ exits → exits ∧ EmptyTable fds) ↔
      StaysExited m e))

/-- An event that does not change the state of the current task. -/
theorem Touches.settles {c : Sched} {fds : FdTable} {Q : Prop} (hok : MachineOk m)
    (h : Touches m.sched c (m.sched.state m.sched.currentTask = .exited) fds)
    (hQ : ExitFinal m → EmptyTable m.sched.current.fds → m.gone m.sched.currentTask = true →
      (EmptyTable fds ↔ Q))
    (hstays : StaysExited m e ↔ (m.gone m.sched.currentTask = true → Q)) : Settles m e c := by
  refine ⟨_, fds, h, fun hm => ?_⟩
  rw [hstays, ← hm.current hok, or_self]
  refine forall_congr' fun hgone => ?_
  rw [and_iff_right hgone]
  exact hQ hm (hm _ hok.sched.current_lt hgone).2 hgone

theorem next_settles {c : Sched} {b : Backends τ ν} (hok : MachineOk m)
    (hnext : m.next dev e = some (c, b)) : Settles m e c := by
  have hinv := hok.sched
  -- a table that is not changed stays empty
  have hsame : ExitFinal m → EmptyTable m.sched.current.fds →
      m.gone m.sched.currentTask = true → (EmptyTable m.sched.current.fds ↔ True) :=
    fun _ h _ => iff_true_intro h
  have hstay := touches_of_sleeps hinv (Effect.refl none _) (Sleeps.refl none _)
  cases e with
  | tick r =>
    obtain ⟨c, hc, heq⟩ := Option.map_eq_some_iff.mp hnext
    cases heq
    obtain ⟨he, hown⟩ := hinv.tick_effect hc
    have hst : Step m.sched (.tick r) c := ⟨trivial, hc⟩
    exact (touches_of_sleeps (hinv.step hst) he hown).settles hok hsame Iff.rfl
  | wake waitObj =>
    obtain ⟨c, hc, heq⟩ := Option.map_eq_some_iff.mp hnext
    cases heq
    obtain ⟨he, -, -, hall, -⟩ := wake_effect hinv.ring hc
    have hst : Step m.sched (.wake waitObj) c := ⟨trivial, hc⟩
    exact (touches_of_sleeps (hinv.step hst) he (hall _ hinv.current_lt)).settles hok hsame Iff.rfl
  | block waitObj frame =>
    simp only [Machine.next] at hnext
    split_ifs at hnext with hi
    obtain ⟨c, hc, heq⟩ := Option.map_eq_some_iff.mp hnext
    cases heq
    obtain ⟨he, hblocked, -, -, hfds⟩ := hinv.block_effect hi hc
    have hst : Step m.sched (.block waitObj frame) c := ⟨hi, hc⟩
    have hawake : c.state m.sched.currentTask = .exited ↔ False := by simp [hblocked]
    refine ⟨_, _, touches_of_effect (hinv.step hst) he hawake hfds, fun _ => ?_⟩
    show (_ ∨ False → False ∧ _) ↔ (_ → False)
    rw [or_false, false_and]
  | backends b' =>
    cases hnext
    exact hstay.settles hok hsame Iff.rfl
  | exit code =>
    simp only [Machine.next, exitCurrent] at hnext
    split_ifs at hnext with hi
    · cases hnext
      exact hstay.settles hok hsame Iff.rfl
    · obtain ⟨c, hc, heq⟩ := Option.map_eq_some_iff.mp hnext
      cases heq
      refine ⟨_, _, touches_exit hinv hi _ hc, fun _ => ?_⟩
      exact iff_of_true (fun _ => ⟨trivial, vfsExitFds_empty _ _⟩) fun _ => trivial
  | fork dir esp =>
    simp only [Machine.next] at hnext
    split_ifs at hnext with hi hroom
    · cases hnext
      exact hstay.settles hok hsame Iff.rfl
    · cases hnext
      rw [Scheduler.forkCurrent, if_neg hi]
      exact (touches_of_sleeps (hinv.linkTask _) (linkTask_effect hinv.ring.idle_lt _)
        (linkTask_sleeps _ hinv.current_lt)).settles hok hsame Iff.rfl
  | vfs call =>
    simp only [Machine.next] at hnext
    split_ifs at hnext with hvfs
    obtain ⟨⟨ret, k⟩, hk, heq⟩ := Option.map_eq_some_iff.mp hnext
    cases heq
    refine (touches_setProc hinv (k.procs m.sched.currentTask)).settles hok
      (fun _ htab _ => call_emptyTable_iff htab (Bool.not_eq_true _ ▸ hvfs) hk) ?_
    cases call <;> rfl
  | ioctl request arg =>
    cases hnext
    refine (touches_setProc hinv _).settles hok (fun _ htab _ => ?_) Iff.rfl
    unfold sysIoctl schedulerSetTty
    split_ifs with hreq hvalid
    · exact iff_of_false (not_emptyTable_bind _ _) fun h => h ⟨hreq, hvalid⟩
    · exact iff_of_true htab fun h => hvalid h.2
    · exact iff_of_true htab fun h => hreq h.1
  | exec path found buf loads esi dir esp stack =>
    simp only [Machine.next] at hnext
    obtain ⟨⟨read, b'⟩, helf, heq⟩ := Option.map_eq_some_iff.mp hnext
    have hread := execElf_read helf
    dsimp only at heq
    split_ifs at heq with hc
    · cases heq
      refine (touches_setCurrent hinv (execTcb m.sched.current (int32 esi.toNat) dir esp stack)
        rfl rfl dir).settles hok (fun _ htab _ => ?_) Iff.rfl
      rw [execTcb_emptyTable_iff htab]
      exact not_congr ⟨fun htty => ⟨hread.mp hc.1, hc.2.1, htty⟩, fun h => h.2.2⟩
    · cases heq
      refine hstay.settles hok (fun hm htab hgone => ?_) Iff.rfl
      refine iff_of_true htab fun h => hc ⟨hread.mpr h.1, h.2.1, fun hidle => ?_⟩
      -- the idle task never exits
      have hexited := (hm.current hok).mp hgone
      rw [hidle] at hexited
      have hrun := hinv.idle
      rw [hexited] at hrun
      exact absurd hrun (by decide)

theorem MachineOk.step (hok : MachineOk m) (hs : m.step dev e = some m') : MachineOk m' := by
  obtain ⟨⟨c, b⟩, hnext, rfl⟩ := Option.map_eq_some_iff.mp hs
  obtain ⟨_, _, ht, -⟩ := next_settles hok hnext
  exact ht.ok hok b

theorem ExitFinal.step_iff (hm : ExitFinal m) (hok : MachineOk m) (hs : m.step dev e = some m') :
    ExitFinal m' ↔ StaysExited m e := by
  obtain ⟨⟨c, b⟩, hnext, rfl⟩ := Option.map_eq_some_iff.mp hs
  obtain ⟨_, _, ht, hstays⟩ := next_settles hok hnext
  exact (ht.exitFinal_iff hok hm b).trans (hstays hm)

/-- **When exits are final.** From any state before the first exit, for every
    sequence of ticks, wakes, sleeps and system calls: in every state on the way
    the tasks that have exited are `TASK_EXITED` with empty descriptor tables if
    and only if on the way no task that has exited sleeps, opens something or
    selects a terminal. -/
theorem exit_final_iff (h : m.Started) (es : List (MachineEvent τ ν)) :
    (∀ done s, done <+: es → Run (Steps (Machine.step dev)) m done s → ExitFinal s) ↔
      ∀ done e s s', done ++ [e] <+: es → Run (Steps (Machine.step dev)) m done s →
        s.step dev e = some s' → StaysExited s e := by
  refine always_iff h.exitFinal (fun done s e s' hrun hfinal hs => ?_) es
  have hok : MachineOk s := hrun.invariant h.ok fun _ _ _ hu hs => hu.step hs
  exact hfinal.step_iff hok hs

/-! ## `waitpid` and `socket` after `exit` -/

/-- The idle task and two tasks with the first terminal. -/
def threeTasks : Machine Unit Unit where
  sched := createTask (createTask (schedulerInit 0 (vfsInitFds 0)) 0 4096 (vfsInitFds 0)) 0 4096
    (vfsInitFds 0)
  back := freeBackends
  gone := fun _ => false

theorem threeTasks_started : threeTasks.Started := by
  refine ⟨?_, by decide +kernel, fun _ => rfl⟩
  exact ((SchedInv.init 0 _).linkTask _).linkTask _

/-- A task exits, tries to read its closed standard input, and is preempted. -/
theorem exit_final_iff_read :
    ∃ m, Run (Steps (Machine.step idleDevices)) threeTasks
        [.tick 0, .exit 3, .vfs (.read 0 1 4096), .tick 0] m ∧
      m.gone 2 = true ∧ ExitFinal m := by
  have hview : ([.tick 0, .exit 3, .vfs (.read 0 1 4096), .tick 0].foldlM (fun m e =>
      if StaysExited m e then m.step idleDevices e else none) threeTasks).map
        (fun m => m.gone 2) = some true := by
    decide +kernel
  obtain ⟨m, hm, hgone⟩ := Option.map_eq_some_iff.mp hview
  have hrun := (run_restrict_of_foldlM hm).of_restrict
  have hfinal := (exit_final_iff threeTasks_started _).mpr
    (fun done e s _ hpre hrun _ => ok_of_foldlM hm hpre hrun) _ m List.prefix_rfl hrun
  exact ⟨m, hrun, hgone, hfinal⟩

/-- **Exits are not final.** Task 2 exits and then calls `waitpid(1)`, which puts
    it to sleep; when task 1 exits, task 2 is ready again, and the next ticks run
    it. Or it calls `socket` after `exit`: it is `TASK_EXITED` and has a
    descriptor, and nobody will close the socket. -/
theorem exited_task_comes_back :
    (∃ m, Run (Steps (Machine.step idleDevices)) threeTasks
        [.tick 0, .exit 0, .block 1 0, .exit 0, .tick 0, .tick 0] m ∧
      m.gone 2 = true ∧ m.sched.currentTask = 2 ∧ m.sched.state 2 = .running ∧ ¬ ExitFinal m) ∧
    ∃ m, Run (Steps (Machine.step idleDevices)) threeTasks
        [.tick 0, .exit 0, .vfs (.socket 2 2 0)] m ∧
      m.gone 2 = true ∧ m.sched.state 2 = .exited ∧ (m.sched.tcb 2).fds 0 = -4096 ∧
      ¬ ExitFinal m :=
  ⟨exists_run (by decide +kernel), exists_run (by decide +kernel)⟩

end Mboot.Process
