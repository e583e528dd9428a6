import Mboot.Scheduler.Spaces

/-!
# `waitpid`, `exit` and the wait objects they share

`scheduler_wait_pid` sleeps on the PID cast to a pointer. All sleepers share
one key space of wait objects: UDP readers sleep on a port number cast to a
pointer, and terminal, raw-socket and disk sleepers on kernel addresses.

System calls enter through a trap gate, so interrupts stay enabled inside them
and a timer tick may fall between the check and the sleep of a `waitpid`, or
between two stores of an `exit`. The calls are cut into steps accordingly
(`Cont`); the creation of a task is one step.

* `Does`: what a step can do, with its guards.
* `Effect`: what a step does to the tasks that do not take it.
* `SleepInv.step`: the invariant of the system and the effect of its steps, in
  any interleaving.
-/

namespace Mboot.Scheduler

open Common

/-! ## `scheduler_wait_pid` -/

/-- `scheduler_wait_pid` up to its sleep (lines 71–77): `some v` when it returns
    `v` without sleeping, `none` when it goes on to sleep. -/
def waitPidCheck (s : Sched) (pid : ℤ) : Option (Option ℤ) :=
  if pid < 0 then some (some (-1))
  else
    (schedulerFindByPid s pid).map fun child =>
      match child with
      | none => some (-1)
      | some child =>
        if s.state child = .exited then some (s.tcb child).exitCode else none

/-- `scheduler_wait_pid` after its sleep (lines 79–82). -/
def waitPidResult (s : Sched) (pid : ℤ) : Option ℤ :=
  (schedulerFindByPid s pid).map fun child =>
    match child with
    | none => -1
    | some child => (s.tcb child).exitCode

/-! ## The system -/

/-- Where a task is inside the kernel, as far as `waitpid` and `exit` go. -/
inductive Cont
  /-- anywhere else -/
  | user
  /-- `scheduler_wait_pid(pid)` between line 77 and the sleep -/
  | waitFound (pid : ℤ)
  /-- `scheduler_wait_pid(pid)` inside `scheduler_block` -/
  | waitAsleep (pid : ℤ)
  /-- `exit(code)` between the stores of lines 561 and 562 -/
  | exitMarked (code : ℤ)
  /-- `exit` between the store of the code and the wake of line 563 -/
  | exitRecorded
  deriving DecidableEq

/-- The callers of `scheduler_wake` other than `exit`. -/
inductive Signal
  /-- `udp_server_enqueue` (udp.c line 137) -/
  | udp (port : ℕ)
  /-- `tty_handle_key` (tty.c line 306) on the terminal at `tty` -/
  | keyboard (tty : ℕ)
  /-- `socket_icmp_rx` (socket.c line 338) on the socket at `sock` -/
  | rawSocket (sock : ℕ)
  /-- `disk_unlock` (disk.c line 25), with `disk_mutex` at `mutex` -/
  | diskUnlock (mutex : ℕ)

/-- The wait object of a signal. -/
def Signal.obj : Signal → ℕ
  | .udp port => port
  | .keyboard tty => tty
  | .rawSocket sock => sock
  | .diskUnlock mutex => mutex

/-- `UDP_MAX_SERVERS` (udp.c). -/
abbrev udpMaxServers : ℕ := 4

/-- The scheduler, the tasks' positions inside the kernel, and the ports with a
    userspace server. `passed t` records the last code task `t` called `exit`
    with; the kernel does not store it. -/
structure System where
  sched : Sched
  cont : ℕ → Cont
  passed : ℕ → Option ℤ
  udpPorts : List ℕ

/-- The system after `scheduler_init`. -/
def boot (kernelDir : ℕ) (fds : FdTable) : System where
  sched := schedulerInit kernelDir fds
  cont := fun _ => .user
  passed := fun _ => none
  udpPorts := []

/-- The steps. `task_exit` takes those of an `exit` with code 0 and halts; `exec` is
    left out. -/
inductive Action
  /-- task creation, `fork`, a timer tick, or a sleep on some other object -/
  | sched (e : Event)
  | udpServerBind (port : ℕ)
  | signal (w : Signal)
  | waitCheck (pid : ℤ)
  | waitBlock (frame : ℕ)
  /-- `scheduler_wait_pid(pid)` returns `v` -/
  | waitReturn (pid v : ℤ)
  | exitMark (code : ℤ)
  | exitRecord
  | exitWake

/-- The scheduler events that happen outside `waitpid` and `exit`. A tick
    interrupts a task anywhere; the others are calls of the current task. -/
def Permitted (s : System) : Event → Prop
  | .tick _ => True
  | .createTask _ _ _ | .createUserTask _ _ _ _ _ | .fork _ _ _ =>
    s.cont s.sched.currentTask = .user ∧ s.sched.count < maxTasks
  | .block _ _ => s.cont s.sched.currentTask = .user ∧ s.sched.currentTask ≠ s.sched.idleTask
  | .wake _ | .exit _ | .taskExit => False

instance (s : System) : DecidablePred (Permitted s)
  | .tick _ => inferInstanceAs (Decidable True)
  | .createTask .. | .createUserTask .. | .fork .. | .block .. => inferInstanceAs (Decidable (_ ∧ _))
  | .wake _ | .exit _ | .taskExit => inferInstanceAs (Decidable False)

/-- A datagram is queued only at a bound port. -/
def Signal.Possible (udpPorts : List ℕ) : Signal → Prop
  | .udp port => port ∈ udpPorts
  | _ => True

instance (udpPorts : List ℕ) : DecidablePred (Signal.Possible udpPorts)
  | .udp _ => inferInstanceAs (Decidable (_ ∈ _))
  | .keyboard _ | .rawSocket _ | .diskUnlock _ => inferInstanceAs (Decidable True)

/-- The current task goes on at `k`. -/
def System.setCont (s : System) (t : ℕ) (k : Cont) : System :=
  { s with cont := Function.update s.cont t k }

/-- One step of the system; `none` when the step is not possible. The idle task
    makes no system call. -/
def System.step (s : System) : Action → Option System
  | .sched e =>
    if Permitted s e then (Scheduler.step s.sched e).map fun c => { s with sched := c } else none
  | .udpServerBind port =>
    if port ∈ s.udpPorts then some s
    else if port < 2 ^ 16 ∧ s.udpPorts.length < udpMaxServers then
      some { s with udpPorts := s.udpPorts ++ [port] }
    else none
  | .signal w =>
    if w.Possible s.udpPorts then
      (schedulerWake s.sched w.obj).map fun c => { s with sched := c }
    else none
  | .waitCheck pid =>
    if s.cont s.sched.currentTask = .user ∧ s.sched.currentTask ≠ s.sched.idleTask ∧
        waitPidCheck s.sched pid = some none then
      some (s.setCont s.sched.currentTask (.waitFound pid))
    else none
  | .waitBlock frame =>
    match s.cont s.sched.currentTask with
    | .waitFound pid =>
      (schedulerBlock s.sched pid.toNat frame).map fun c =>
        { s with sched := c }.setCont s.sched.currentTask (.waitAsleep pid)
    | _ => none
  | .waitReturn pid v =>
    if s.cont s.sched.currentTask = .user ∧ s.sched.currentTask ≠ s.sched.idleTask ∧
        waitPidCheck s.sched pid = some (some v) then some s
    else if s.cont s.sched.currentTask = .waitAsleep pid ∧ waitPidResult s.sched pid = some v then
      some (s.setCont s.sched.currentTask .user)
    else none
  | .exitMark code =>
    if s.cont s.sched.currentTask = .user ∧ s.sched.currentTask ≠ s.sched.idleTask then
      some ({ s with
        sched := s.sched.setState s.sched.currentTask .exited
        passed := Function.update s.passed s.sched.currentTask (some code) }.setCont
          s.sched.currentTask (.exitMarked code))
    else none
  | .exitRecord =>
    match s.cont s.sched.currentTask with
    | .exitMarked code =>
      some ({ s with
        sched := s.sched.setTcb s.sched.currentTask
          { s.sched.current with exitCode := code } }.setCont s.sched.currentTask .exitRecorded)
    | _ => none
  | .exitWake =>
    match s.cont s.sched.currentTask with
    | .exitRecorded =>
      (schedulerWake s.sched s.sched.current.pid).map fun c =>
        { s with sched := c }.setCont s.sched.currentTask .user
    | _ => none

/-- The three steps of an uninterrupted `exit` are `scheduler_exit_current`. -/
theorem exit_steps_eq {s : System} (hu : s.cont s.sched.currentTask = .user)
    (hi : s.sched.currentTask ≠ s.sched.idleTask) (code : ℤ) :
    ([.exitMark code, .exitRecord, .exitWake].foldlM System.step s).map System.sched =
      schedulerExitCurrent s.sched code := by
  rw [schedulerExitCurrent, if_neg hi]
  simp [System.step, System.setCont, hu, hi, Function.comp_def, markExited, Sched.setState,
    Sched.setTcb, Sched.current]

/-- The system with page directories around it. -/
def inSystem : Around System Action where
  sched := System.sched
  put := fun s c => { s with sched := c }
  step := System.step
  event := fun
    | .sched e => some e
    | _ => none
  put_sched := fun _ => rfl

/-- What a step can do: the cases of `System.step`, with their guards. -/
inductive Does (s : System) : Action → System → Prop
  | sched {e : Event} {c : Sched} (hp : Permitted s e) (hs : Scheduler.step s.sched e = some c) :
      Does s (.sched e) { s with sched := c }
  | udpServerBind {port : ℕ} (udpPorts : List ℕ) : Does s (.udpServerBind port) { s with udpPorts }
  | signal {w : Signal} {c : Sched} (hs : schedulerWake s.sched w.obj = some c) :
      Does s (.signal w) { s with sched := c }
  | waitCheck {pid : ℤ} (hk : s.cont s.sched.currentTask = .user)
      (hi : s.sched.currentTask ≠ s.sched.idleTask) (hc : waitPidCheck s.sched pid = some none) :
      Does s (.waitCheck pid) (s.setCont s.sched.currentTask (.waitFound pid))
  | waitBlock {pid : ℤ} {frame : ℕ} {c : Sched}
      (hk : s.cont s.sched.currentTask = .waitFound pid)
      (hs : schedulerBlock s.sched pid.toNat frame = some c) :
      Does s (.waitBlock frame) ({ s with sched := c }.setCont s.sched.currentTask (.waitAsleep pid))
  | waitFinds {pid v : ℤ} (hk : s.cont s.sched.currentTask = .user)
      (hc : waitPidCheck s.sched pid = some (some v)) : Does s (.waitReturn pid v) s
  | waitReturn {pid v : ℤ} (hk : s.cont s.sched.currentTask = .waitAsleep pid)
      (hc : waitPidResult s.sched pid = some v) :
      Does s (.waitReturn pid v) (s.setCont s.sched.currentTask .user)
  | exitMark {code : ℤ} (hk : s.cont s.sched.currentTask = .user)
      (hi : s.sched.currentTask ≠ s.sched.idleTask) :
      Does s (.exitMark code) ({ s with
        sched := exitedCurrent s.sched s.sched.current.exitCode
        passed := Function.update s.passed s.sched.currentTask (some code) }.setCont
          s.sched.currentTask (.exitMarked code))
  | exitRecord {code : ℤ} (hk : s.cont s.sched.currentTask = .exitMarked code) :
      Does s .exitRecord ({ s with
        sched := s.sched.setTcb s.sched.currentTask
          { s.sched.current with exitCode := code } }.setCont s.sched.currentTask .exitRecorded)
  | exitWake {c : Sched} (hk : s.cont s.sched.currentTask = .exitRecorded)
      (hs : schedulerWake s.sched s.sched.current.pid = some c) :
      Does s .exitWake ({ s with sched := c }.setCont s.sched.currentTask .user)

theorem System.does {s s' : System} {a : Action} (hs : s.step a = some s') : Does s a s' := by
  cases a with
  | sched e =>
    simp only [System.step] at hs
    split_ifs at hs with hp
    obtain ⟨c, hc, rfl⟩ := Option.map_eq_some_iff.mp hs
    exact .sched hp hc
  | udpServerBind port =>
    simp only [System.step] at hs
    split_ifs at hs <;> cases hs
    · exact .udpServerBind s.udpPorts
    · exact .udpServerBind _
  | signal w =>
    simp only [System.step] at hs
    split_ifs at hs
    obtain ⟨c, hc, rfl⟩ := Option.map_eq_some_iff.mp hs
    exact .signal hc
  | waitCheck pid =>
    simp only [System.step] at hs
    split_ifs at hs with hc
    cases hs
    exact .waitCheck hc.1 hc.2.1 hc.2.2
  | waitBlock frame =>
    simp only [System.step] at hs
    split at hs
    · next pid hk =>
      obtain ⟨c, hc, rfl⟩ := Option.map_eq_some_iff.mp hs
      exact .waitBlock hk hc
    · cases hs
  | waitReturn pid v =>
    simp only [System.step] at hs
    split_ifs at hs with h1 h2 <;> cases hs
    · exact .waitFinds h1.1 h1.2.2
    · exact .waitReturn h2.1 h2.2
  | exitMark code =>
    simp only [System.step] at hs
    split_ifs at hs with hc
    cases hs
    exact .exitMark hc.1 hc.2
  | exitRecord =>
    simp only [System.step] at hs
    split at hs
    · next code hk =>
      cases hs
      exact .exitRecord hk
    · cases hs
  | exitWake =>
    simp only [System.step] at hs
    split at hs
    · next hk =>
      obtain ⟨c, hc, rfl⟩ := Option.map_eq_some_iff.mp hs
      exact .exitWake hk hc
    · cases hs

/-! ## What one step does to the other tasks -/

/-- `b'` is the control block `b` after a step that signals `sig`: nobody starts
    to sleep or exits, and only the sleepers on `sig` may have been woken. -/
structure Sleeps (sig : Option ℕ) (b b' : Tcb) : Prop where
  pid : b'.pid = b.pid
  exitCode : b'.exitCode = b.exitCode
  fds : b'.fds = b.fds
  waitObj : b'.waitObj = b.waitObj
  exited : b'.state = .exited ↔ b.state = .exited
  blocked_of : b'.state = .blocked → b.state = .blocked
  blocked : b.state = .blocked → sig ≠ some b.waitObj → b'.state = .blocked

theorem Sleeps.refl (sig : Option ℕ) (b : Tcb) : Sleeps sig b b :=
  ⟨rfl, rfl, rfl, rfl, Iff.rfl, id, fun h _ => h⟩

theorem Sleeps.trans {sig : Option ℕ} {a b c : Tcb} (h : Sleeps none a b) (h' : Sleeps sig b c) :
    Sleeps sig a c where
  pid := h'.pid.trans h.pid
  exitCode := h'.exitCode.trans h.exitCode
  fds := h'.fds.trans h.fds
  waitObj := h'.waitObj.trans h.waitObj
  exited := h'.exited.trans h.exited
  blocked_of := fun hb => h.blocked_of (h'.blocked_of hb)
  blocked := fun hb hs => h'.blocked (h.blocked hb (by simp)) (by rw [h.waitObj]; exact hs)

/-- What a step of the scheduler that signals `sig` does, apart from what it
    does to the task that takes it. -/
structure Effect (sig : Option ℕ) (s c : Sched) : Prop where
  count_le : s.count ≤ c.count
  idle : c.idleTask = s.idleTask
  others : ∀ t < s.count, t ≠ s.currentTask → Sleeps sig (s.tcb t) (c.tcb t)
  fresh : ∀ t, s.count ≤ t → t < c.count → c.state t ≠ .exited
  /-- Only a task that has not exited is switched to. -/
  switch : c.currentTask ≠ s.currentTask → s.state c.currentTask ≠ .exited

/-- For steps that allocate no control block. -/
theorem Effect.of_count {sig : Option ℕ} {s c : Sched} (hcount : c.count = s.count)
    (hidle : c.idleTask = s.idleTask)
    (hothers : ∀ t < s.count, t ≠ s.currentTask → Sleeps sig (s.tcb t) (c.tcb t))
    (hswitch : c.currentTask ≠ s.currentTask → s.state c.currentTask ≠ .exited) : Effect sig s c :=
  ⟨hcount.ge, hidle, hothers, fun t h1 h2 => absurd (hcount ▸ h2) (by omega), hswitch⟩

theorem Effect.refl (sig : Option ℕ) (s : Sched) : Effect sig s s :=
  .of_count rfl rfl (fun _ _ _ => Sleeps.refl _ _) fun h => absurd rfl h

theorem linkTask_sleeps {s : Sched} (n : NewTask) {t : ℕ} (ht : t < s.count) :
    Sleeps none (s.tcb t) ((linkTask s n).tcb t) := by
  obtain ⟨next, htcb⟩ := linkTask_tcb_of_lt n ht
  rw [htcb]
  exact ⟨rfl, rfl, rfl, rfl, Iff.rfl, id, fun h _ => h⟩

theorem linkTask_effect {s : Sched} (hidle : s.idleTask < s.count) (n : NewTask) :
    Effect none s (linkTask s n) := by
  have hcount := linkTask_count s n
  refine ⟨by omega, rfl, fun t ht _ => linkTask_sleeps n ht, fun t h1 h2 => ?_,
    fun h => absurd rfl h⟩
  obtain rfl : t = s.count := by omega
  rw [linkTask_state n hidle, if_pos rfl]
  decide

/-- `scheduler_schedule` touches the state of one ready task only. -/
theorem PreSchedule.effect {s c : Sched} (h : PreSchedule s) (hs : schedulerSchedule s = some c) :
    c.count = s.count ∧ c.idleTask = s.idleTask ∧ s.state c.currentTask = .ready ∧
      ∀ t, Sleeps none (s.tcb t) (c.tcb t) := by
  obtain ⟨u, hu, -, hready, -⟩ := h.schedule
  rw [hu] at hs
  cases hs
  refine ⟨switchTo_count s u, switchTo_idleTask s u, by rwa [switchTo_currentTask], ?_⟩
  intro t
  rw [switchTo_tcb]
  split_ifs with hc
  · obtain ⟨rfl, -⟩ := hc
    have hst : (s.tcb t).state = .ready := hready
    constructor <;> simp [hst]
  · exact Sleeps.refl _ _

theorem SchedInv.tick_effect {s c : Sched} (h : SchedInv s) {r : ℕ}
    (hs : schedulerTick s r = some c) :
    Effect none s c ∧ Sleeps none s.current (c.tcb s.currentTask) := by
  have hpre : ∀ t, Sleeps none (s.tcb t) ((Scheduler.preempt s r).tcb t) := by
    intro t
    by_cases ht : t = s.currentTask
    · subst ht
      by_cases hrun : s.current.state = .running
      · constructor <;> simp [Scheduler.preempt, Sched.current, hrun]
      · constructor <;> simp [Scheduler.preempt, Sched.current, hrun]
    · rw [Scheduler.preempt, Sched.setTcb_tcb_of_ne _ _ ht]
      exact Sleeps.refl _ _
  obtain ⟨hcount, hidle, hready, hall⟩ := (h.preempt r).effect hs
  refine ⟨.of_count hcount hidle (fun t _ _ => (hpre t).trans (hall t)) fun _ he => ?_,
    (hpre _).trans (hall _)⟩
  have := (hpre c.currentTask).exited.mpr he
  rw [Sched.state] at hready
  rw [hready] at this
  cases this

theorem SchedInv.block_effect {s c : Sched} (h : SchedInv s) (hi : s.currentTask ≠ s.idleTask)
    {o f : ℕ} (hs : schedulerBlock s o f = some c) :
    Effect none s c ∧ c.state s.currentTask = .blocked ∧ (c.tcb s.currentTask).waitObj = o ∧
      (c.tcb s.currentTask).pid = s.current.pid ∧ (c.tcb s.currentTask).fds = s.current.fds := by
  rw [schedulerBlock_eq] at hs
  obtain ⟨hcount, hidle, hready, hall⟩ := (h.blockCurrent hi o f).effect hs
  have hother : ∀ t, t ≠ s.currentTask → (Scheduler.blockCurrent s o f).tcb t = s.tcb t :=
    fun t ht => Sched.setTcb_tcb_of_ne _ _ ht
  have hself : (Scheduler.blockCurrent s o f).tcb s.currentTask =
      { s.current with esp := f, waitObj := o, state := .blocked } := Sched.setTcb_tcb_self ..
  have hcur := hall s.currentTask
  rw [hself] at hcur
  refine ⟨.of_count hcount hidle (fun t _ ht => ?_) fun hne => ?_, ?_, hcur.waitObj, hcur.pid,
    hcur.fds⟩
  · rw [← hother t ht]
    exact hall t
  · rw [Sched.state, hother _ hne] at hready
    rw [Sched.state, hready]
    decide
  · exact hcur.blocked rfl (by simp)

theorem wake_effect {s c : Sched} (h : RingOk s) {o : ℕ} (hs : schedulerWake s o = some c) :
    Effect (some o) s c ∧ c.currentTask = s.currentTask ∧ c.count = s.count ∧
      (∀ t < s.count, Sleeps (some o) (s.tcb t) (c.tcb t)) ∧
      (o ≠ 0 → ∀ t < s.count, c.state t = .blocked → (c.tcb t).waitObj ≠ o) := by
  obtain ⟨ho, rfl⟩ | ⟨ho, rfl⟩ := schedulerWake_cases h hs
  · exact ⟨Effect.refl _ c, rfl, rfl, fun _ _ => Sleeps.refl _ _, fun hne => absurd ho hne⟩
  · have hall : ∀ t, Sleeps (some o) (s.tcb t) ((wakeAll s o).tcb t) := by
      intro t
      simp only [wakeAll, wakeTcb]
      split_ifs with h1 h2
      · refine ⟨rfl, rfl, rfl, rfl, by simp [h2.1], by simp, fun _ hne => ?_⟩
        exact absurd (by rw [h2.2]) hne
      · exact Sleeps.refl _ _
      · exact Sleeps.refl _ _
    refine ⟨.of_count rfl rfl (fun t _ _ => hall t) fun hne => absurd rfl hne, rfl, rfl,
      fun t _ => hall t, fun _ t ht hb heq => ?_⟩
    rw [wakeAll_state] at hb
    rw [(hall t).waitObj] at heq
    split_ifs at hb with hc
    exact hc ⟨ht, hb, heq⟩

/-- A store to the state or the exit code of the current task touches no other. -/
theorem setTcb_effect (s : Sched) (b : Tcb) : Effect none s (s.setTcb s.currentTask b) := by
  refine .of_count rfl rfl (fun t _ ht => ?_) fun hne => absurd rfl hne
  rw [Sched.setTcb_tcb_of_ne _ _ ht]
  exact Sleeps.refl _ _

/-- What a step of the system that signals `sig` does to the tasks that do not take it. -/
structure Moves (sig : Option ℕ) (s s' : System) : Prop where
  effect : Effect sig s.sched s'.sched
  cont : ∀ t, t ≠ s.sched.currentTask → s'.cont t = s.cont t
  passed : ∀ t, t ≠ s.sched.currentTask → s'.passed t = s.passed t

/-- The current task goes on somewhere else. -/
theorem Moves.setCont {sig : Option ℕ} {s s' : System} (h : Moves sig s s') (k : Cont) :
    Moves sig s (s'.setCont s.sched.currentTask k) :=
  ⟨h.effect, fun t ht => (Function.update_of_ne ht _ _).trans (h.cont t ht), h.passed⟩

/-! ## What every step keeps -/

theorem schedulerSchedule_alloc {s s' : Sched} (h : schedulerSchedule s = some s') :
    s'.count = s.count ∧ s'.nextPid = s.nextPid := by
  obtain ⟨u, -, rfl⟩ := Option.map_eq_some_iff.mp h
  exact ⟨switchTo_count s u, switchTo_nextPid s u⟩

theorem schedulerBlock_alloc {s s' : Sched} {o f : ℕ} (h : schedulerBlock s o f = some s') :
    s'.count = s.count ∧ s'.nextPid = s.nextPid := by
  rw [schedulerBlock_eq] at h
  obtain ⟨hcount, hnext⟩ := schedulerSchedule_alloc h
  exact ⟨hcount, hnext⟩

theorem schedulerWake_alloc {s c : Sched} {o : ℕ} (h : RingOk s) (hs : schedulerWake s o = some c) :
    (c.count = s.count ∧ c.nextPid = s.nextPid) ∧ c.currentTask = s.currentTask := by
  obtain ⟨-, rfl⟩ | ⟨-, rfl⟩ := schedulerWake_cases h hs
  · exact ⟨⟨rfl, rfl⟩, rfl⟩
  · exact ⟨⟨rfl, rfl⟩, rfl⟩

/-- Where a task's PID is the number of its control block, the search by PID finds
    that control block. -/
theorem schedulerFindByPid_of_pids {s : Sched} (hring : RingOk s)
    (hpids : ∀ t < s.count, (s.tcb t).pid = t) {pid : ℤ} {t : ℕ}
    (hf : schedulerFindByPid s pid = some (some t)) : t < s.count ∧ pid = t := by
  obtain ⟨r, hr, hsome, -⟩ := schedulerFindByPid_spec hring pid
  rw [hr] at hf
  obtain ⟨ht, hp⟩ := hsome t (Option.some.inj hf)
  exact ⟨ht, by rw [← hp, hpids t ht]⟩

/-- `waitpid` goes to sleep only for an existing task. -/
theorem waitPidCheck_none {s : Sched} (hring : RingOk s)
    (hpids : ∀ t < s.count, (s.tcb t).pid = t) {pid : ℤ}
    (hc : waitPidCheck s pid = some none) : ∃ u < s.count, pid = u := by
  unfold waitPidCheck at hc
  split_ifs at hc
  · cases hc
  · obtain ⟨r, hr, hres⟩ := Option.map_eq_some_iff.mp hc
    cases r with
    | none => cases hres
    | some t => exact ⟨t, schedulerFindByPid_of_pids hring hpids hr⟩

/-- PIDs are handed out in order. -/
structure Numbered (s : Sched) : Prop where
  pids : ∀ t < s.count, (s.tcb t).pid = t
  nextPid : s.nextPid = s.count
  small : s.count ≤ maxTasks

theorem Numbered.linkTask {s : Sched} (h : Numbered s) (hidle : s.idleTask < s.count) (n : NewTask)
    (hroom : s.count < maxTasks) : Numbered (linkTask s n) := by
  have hmax : maxTasks < 2 ^ 32 := by decide
  refine ⟨fun t ht => ?_, ?_, hroom⟩
  · rw [linkTask_count] at ht
    by_cases hlt : t < s.count
    · exact (linkTask_sleeps n hlt).pid.trans (h.pids t hlt)
    · obtain rfl : t = s.count := by omega
      have hne : s.count ≠ s.idleTask := by omega
      simp [Scheduler.linkTask, Sched.setTcb, hne, h.nextPid]
  · show (s.nextPid + 1) % 2 ^ 32 = s.count + 1
    rw [h.nextPid]
    exact Nat.mod_eq_of_lt (by omega)

theorem Numbered.of_effect {sig : Option ℕ} {s c : Sched} (h : Numbered s) (he : Effect sig s c)
    (hown : (c.tcb s.currentTask).pid = s.current.pid)
    (halloc : c.count = s.count ∧ c.nextPid = s.nextPid) : Numbered c := by
  obtain ⟨hcount, hnext⟩ := halloc
  refine ⟨fun t ht => ?_, by rw [hnext, hcount, h.nextPid], by rw [hcount]; exact h.small⟩
  rw [hcount] at ht
  by_cases hc : t = s.currentTask
  · subst hc
    exact hown.trans (h.pids _ ht)
  · exact (he.others t ht hc).pid.trans (h.pids t ht)

/-- A `waitpid` sleeps on the PID of an existing task, and `exit` marks the task
    first. -/
def SleepOk (s : System) (t : ℕ) : Cont → Prop
  | .waitFound pid => ∃ u < s.sched.count, pid = u
  | .waitAsleep pid => ∃ u < s.sched.count, pid = u ∧
      (s.sched.state t = .blocked → (s.sched.tcb t).waitObj = u)
  | .exitMarked _ | .exitRecorded => s.sched.state t = .exited
  | .user => True

/-- A task stays where it may be when it sleeps on, is woken, or is not touched. -/
theorem SleepOk.of_sleeps {sig : Option ℕ} {s s' : System} {t : ℕ} {k : Cont} (h : SleepOk s t k)
    (hcount : s.sched.count ≤ s'.sched.count) (hsl : Sleeps sig (s.sched.tcb t) (s'.sched.tcb t)) :
    SleepOk s' t k := by
  cases k with
  | waitFound pid =>
    obtain ⟨u, hu, rfl⟩ := h
    exact ⟨u, by omega, rfl⟩
  | waitAsleep pid =>
    obtain ⟨u, hu, rfl, hobj⟩ := h
    refine ⟨u, by omega, rfl, fun hb => ?_⟩
    rw [hsl.waitObj]
    exact hobj (hsl.blocked_of hb)
  | user => trivial
  | exitMarked code | exitRecorded => exact hsl.exited.mpr h

/-- What holds in every reachable state, whatever the interleaving. -/
structure SleepInv (s : System) : Prop where
  sched : SchedInv s.sched
  numbered : Numbered s.sched
  idle : s.sched.idleTask = 0
  idleUser : s.cont 0 = .user
  fresh : ∀ t, s.sched.count ≤ t → s.cont t = .user
  conts : ∀ t < s.sched.count, SleepOk s t (s.cont t)

theorem SleepInv.init (kernelDir : ℕ) (fds : FdTable) : SleepInv (boot kernelDir fds) where
  sched := SchedInv.init kernelDir fds
  numbered := by
    refine ⟨fun t ht => ?_, rfl, by show 1 ≤ maxTasks; decide⟩
    have : t < 1 := ht
    show 0 = t
    omega
  idle := rfl
  idleUser := rfl
  fresh := fun _ _ => rfl
  conts := fun _ _ => trivial

section

variable {sig : Option ℕ} {s s' : System} {c : Sched} {a : Action}

theorem SleepInv.current_ne_idle (h : SleepInv s) (hc : s.cont s.sched.currentTask ≠ .user) :
    s.sched.currentTask ≠ s.sched.idleTask := by
  intro heq
  rw [heq, h.idle] at hc
  exact hc h.idleUser

/-- The task somebody sleeps for in `waitpid`. -/
theorem SleepInv.slept_for (h : SleepInv s) {t u : ℕ} (ht : t < s.sched.count)
    (hk : s.cont t = .waitAsleep u) : u < s.sched.count ∧
      (s.sched.state t = .blocked → (s.sched.tcb t).waitObj = u) := by
  obtain ⟨v, hv, huv, hobj⟩ : SleepOk s t (.waitAsleep u) := hk ▸ h.conts t ht
  obtain rfl : u = v := Int.natCast_inj.mp huv
  exact ⟨hv, hobj⟩

/-- A step that signals `sig` keeps the invariant if the task that takes it is at
    a place where it may be. -/
theorem SleepInv.of_moves (h : SleepInv s) (hm : Moves sig s s') (hsched : SchedInv s'.sched)
    (hnum : Numbered s'.sched) (hidle : s.sched.currentTask = 0 → s'.cont 0 = .user)
    (hown : SleepOk s' s.sched.currentTask (s'.cont s.sched.currentTask)) : SleepInv s' := by
  have hlt := h.sched.current_lt
  have hle := hm.effect.count_le
  refine ⟨hsched, hnum, hm.effect.idle.trans h.idle, ?_, fun t ht => ?_, fun t ht => ?_⟩
  · by_cases h0 : s.sched.currentTask = 0
    · exact hidle h0
    · rw [hm.cont 0 (Ne.symm h0)]
      exact h.idleUser
  · rw [hm.cont t (by omega)]
    exact h.fresh t (by omega)
  · by_cases hc : t = s.sched.currentTask
    · subst hc
      exact hown
    · rw [hm.cont t hc]
      by_cases hold : t < s.sched.count
      · exact (h.conts t hold).of_sleeps hle (hm.effect.others t hold hc)
      · rw [h.fresh t (by omega)]
        trivial

/-- The same for a step after which the task that takes it sleeps on, is woken,
    or is not touched, at the same place. -/
theorem SleepInv.of_sleeps (h : SleepInv s) (he : Effect sig s.sched c) (hsched : SchedInv c)
    (hnum : Numbered c) (hown : Sleeps sig s.sched.current (c.tcb s.sched.currentTask)) :
    SleepInv { s with sched := c } ∧ Moves sig s { s with sched := c } := by
  have hm : Moves sig s { s with sched := c } := ⟨he, fun _ _ => rfl, fun _ _ => rfl⟩
  exact ⟨h.of_moves hm hsched hnum (fun _ => h.idleUser)
    ((h.conts _ h.sched.current_lt).of_sleeps he.count_le hown), hm⟩

/-- The same for a step with which the current task goes on at `k`. -/
theorem SleepInv.setCont {u : System} (h : SleepInv s)
    (hi : s.sched.currentTask ≠ s.sched.idleTask) (hm : Moves sig s u) (hsched : SchedInv u.sched)
    (hnum : Numbered u.sched) {k : Cont} (hk : SleepOk u s.sched.currentTask k) :
    SleepInv (u.setCont s.sched.currentTask k) ∧
      Moves sig s (u.setCont s.sched.currentTask k) := by
  refine ⟨h.of_moves (hm.setCont k) hsched hnum (fun h0 => ?_) ?_, hm.setCont k⟩
  · exact absurd (h0.trans h.idle.symm) hi
  · show SleepOk u _ (Function.update u.cont s.sched.currentTask k _)
    rw [Function.update_self]
    exact hk

theorem SleepInv.permitted (h : SleepInv s) {e : Event} (hp : Permitted s e)
    (hs : Scheduler.step s.sched e = some c) :
    SleepInv { s with sched := c } ∧ Moves none s { s with sched := c } := by
  have hidle := h.sched.ring.idle_lt
  have hlink : ∀ n, s.sched.count < maxTasks → SleepInv { s with sched := linkTask s.sched n } ∧
      Moves none s { s with sched := linkTask s.sched n } := fun n hroom =>
    h.of_sleeps (linkTask_effect hidle n) (h.sched.linkTask n) (h.numbered.linkTask hidle n hroom)
      (linkTask_sleeps n h.sched.current_lt)
  cases e with
  | createTask d st fds | createUserTask d st esp tty fds => cases hs; exact hlink _ hp.2
  | fork d esp fds =>
    cases hs
    unfold forkCurrent
    split_ifs
    · exact ⟨h, Effect.refl _ _, fun _ _ => rfl, fun _ _ => rfl⟩
    · exact hlink _ hp.2
  | tick r =>
    have hst : Step s.sched (.tick r) c := ⟨trivial, hs⟩
    obtain ⟨he, hown⟩ := h.sched.tick_effect hs
    obtain ⟨hcount, hnext⟩ := schedulerSchedule_alloc hs
    exact h.of_sleeps he (h.sched.step hst)
      (h.numbered.of_effect he hown.pid ⟨hcount, hnext⟩) hown
  | block o f =>
    have hst : Step s.sched (.block o f) c := ⟨hp.2, hs⟩
    obtain ⟨he, -, -, hpid, -⟩ := h.sched.block_effect hp.2 hs
    have hm : Moves none s { s with sched := c } := ⟨he, fun _ _ => rfl, fun _ _ => rfl⟩
    refine ⟨h.of_moves hm (h.sched.step hst) (h.numbered.of_effect he hpid
      (schedulerBlock_alloc hs)) (fun _ => h.idleUser) ?_, hm⟩
    show SleepOk _ _ (s.cont s.sched.currentTask)
    rw [hp.1]
    trivial
  | wake o | exit code | taskExit => exact hp.elim

/-- A wake. -/
theorem SleepInv.wake (h : SleepInv s) {o : ℕ} (hs : schedulerWake s.sched o = some c) :
    SleepInv { s with sched := c } ∧ Moves (some o) s { s with sched := c } := by
  obtain ⟨he, -, -, hall, -⟩ := wake_effect h.sched.ring hs
  have hst : Step s.sched (.wake o) c := ⟨trivial, hs⟩
  have hown := hall _ h.sched.current_lt
  exact h.of_sleeps he (h.sched.step hst)
    (h.numbered.of_effect he hown.pid (schedulerWake_alloc h.sched.ring hs).1) hown

/-- The stores of `exit`. -/
theorem SleepInv.exiting (h : SleepInv s) (hi : s.sched.currentTask ≠ s.sched.idleTask)
    {exitCode : ℤ} {k : Cont} (hk : (∃ code, k = .exitMarked code) ∨ k = .exitRecorded)
    {passed : ℕ → Option ℤ} (hpassed : ∀ t, t ≠ s.sched.currentTask → passed t = s.passed t) :
    SleepInv ({ s with sched := exitedCurrent s.sched exitCode, passed := passed }.setCont
        s.sched.currentTask k) ∧
      Moves none s ({ s with sched := exitedCurrent s.sched exitCode, passed := passed }.setCont
        s.sched.currentTask k) := by
  have he : Effect none s.sched (exitedCurrent s.sched exitCode) := setTcb_effect _ _
  have hself : (exitedCurrent s.sched exitCode).state s.sched.currentTask = .exited := by
    rw [exitedCurrent_state, if_pos rfl]
  have hpid : ((exitedCurrent s.sched exitCode).tcb s.sched.currentTask).pid =
      s.sched.current.pid := by simp [exitedCurrent]
  refine h.setCont (u := { s with sched := exitedCurrent s.sched exitCode, passed := passed }) hi
    ⟨he, fun _ _ => rfl, hpassed⟩ (h.sched.exitedCurrent hi exitCode)
    (h.numbered.of_effect he hpid ⟨rfl, rfl⟩) ?_
  rcases hk with ⟨code, rfl⟩ | rfl
  · exact hself
  · exact hself

/-- A task is marked before its code is recorded. -/
theorem exitRecord_eq {s : Sched} (he : s.current.state = .exited) (code : ℤ) :
    s.setTcb s.currentTask { s.current with exitCode := code } = exitedCurrent s code := by
  rw [exitedCurrent, ← he]

theorem SleepInv.exitMarked (h : SleepInv s) {code : ℤ}
    (hk : s.cont s.sched.currentTask = .exitMarked code) : s.sched.current.state = .exited := by
  have hex := h.conts _ h.sched.current_lt
  rw [hk] at hex
  exact hex

/-- The object a step signals. -/
def signalled (s : System) : Action → Option ℕ
  | .signal w => some w.obj
  | .exitWake => some s.sched.current.pid
  | _ => none

/-- Every step keeps the invariant, and touches the other tasks only as
    `signalled` says. -/
theorem SleepInv.step (h : SleepInv s) (hs : s.step a = some s') :
    SleepInv s' ∧ Moves (signalled s a) s s' := by
  have hstay : ∀ sig, Moves sig s s := fun sig =>
    ⟨Effect.refl _ _, fun _ _ => rfl, fun _ _ => rfl⟩
  cases System.does hs with
  | sched hp hc => exact h.permitted hp hc
  | udpServerBind ports =>
    exact ⟨⟨h.sched, h.numbered, h.idle, h.idleUser, h.fresh, h.conts⟩, Effect.refl _ _,
      fun _ _ => rfl, fun _ _ => rfl⟩
  | signal hc => exact h.wake hc
  | waitCheck hk hi hc =>
    exact h.setCont hi (hstay _) h.sched h.numbered
      (waitPidCheck_none h.sched.ring h.numbered.pids hc)
  | @waitBlock pid frame c hk hc =>
    have hi := h.current_ne_idle (by rw [hk]; simp)
    have hst : Step s.sched (.block pid.toNat frame) c := ⟨hi, hc⟩
    obtain ⟨he, -, hobj, hpid, -⟩ := h.sched.block_effect hi hc
    have hok := h.conts _ h.sched.current_lt
    rw [hk] at hok
    obtain ⟨u, hu, rfl⟩ := hok
    refine h.setCont (u := { s with sched := c }) hi ⟨he, fun _ _ => rfl, fun _ _ => rfl⟩
      (h.sched.step hst) (h.numbered.of_effect he hpid (schedulerBlock_alloc hc)) ?_
    exact ⟨u, hu.trans_le he.count_le, rfl, fun _ => hobj⟩
  | waitFinds => exact ⟨h, hstay _⟩
  | waitReturn hk =>
    exact h.setCont (h.current_ne_idle (by rw [hk]; simp)) (hstay _) h.sched h.numbered trivial
  | exitMark hk hi => exact h.exiting hi (.inl ⟨_, rfl⟩) fun t ht => Function.update_of_ne ht _ _
  | exitRecord hk =>
    rw [exitRecord_eq (h.exitMarked hk)]
    exact h.exiting (h.current_ne_idle (by rw [hk]; simp)) (.inr rfl) fun _ _ => rfl
  | exitWake hk hc =>
    obtain ⟨hinv, hm⟩ := h.wake hc
    exact h.setCont (h.current_ne_idle (by rw [hk]; simp)) hm hinv.sched hinv.numbered trivial

end

end Mboot.Scheduler
