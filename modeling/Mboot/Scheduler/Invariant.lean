import Mboot.Scheduler.Ring

/-!
# The invariant of the scheduler

The scheduler as a transition system: task creation, `fork`, timer ticks,
blocking, waking and exit, in any order (`Event`, `Step`).

* `SchedInv`: the ring is intact, at most the current task is `TASK_RUNNING`,
  the idle task is runnable and the current task is not blocked.
* `schedInv_of_reachable`: the invariant holds in every state reachable from
  `scheduler_init`.
* `SchedInv.tick_selects`, `SchedInv.block_selects`: there, a tick or a block
  returns and selects a task that was `TASK_READY` or `TASK_RUNNING`.
* `SchedInv.blocked_run`: a blocked task stays blocked as long as nothing signals
  its wait object.

All of this is about one copy of every control block (`Sched`); `Scheduler.Spaces`
adds the copies that forked tasks see.

The branch of `scheduler_schedule` that revives a blocked current task is dead:
the idle task is always there to be chosen instead.
-/

namespace Mboot.Scheduler

open Common

/-! ## The transition system -/

/-- The entry points of the scheduler. -/
inductive Event
  | createTask (kernelDir stack : ℕ) (fds : FdTable)
  | createUserTask (dir stack esp : ℕ) (tty : ℤ) (fds : FdTable)
  | fork (dir esp : ℕ) (fds : FdTable)
  | tick (r : ℕ)
  | block (waitObj frame : ℕ)
  | wake (waitObj : ℕ)
  | exit (exitCode : ℤ)
  | taskExit

/-- The state after an entry point has run. -/
def step (s : Sched) : Event → Option Sched
  | .createTask kernelDir stack fds => some (createTask s kernelDir stack fds)
  | .createUserTask dir stack esp tty fds => some (createUserTask s dir stack esp tty fds)
  | .fork dir esp fds => some (forkCurrent s dir esp fds).2
  | .tick r => schedulerTick s r
  | .block waitObj frame => schedulerBlock s waitObj frame
  | .wake waitObj => schedulerWake s waitObj
  | .exit exitCode => schedulerExitCurrent s exitCode
  | .taskExit => taskExit s

/-- The idle task only halts: it neither blocks nor exits. -/
def Allowed (s : Sched) : Event → Prop
  | .block _ _ => s.currentTask ≠ s.idleTask
  | .exit _ => s.currentTask ≠ s.idleTask
  | .taskExit => s.currentTask ≠ s.idleTask
  | _ => True

instance (s : Sched) : DecidablePred (Allowed s)
  | .block _ _ | .exit _ | .taskExit => inferInstanceAs (Decidable (_ ≠ _))
  | .createTask _ _ _ | .createUserTask _ _ _ _ _ | .fork _ _ _ | .tick _ | .wake _ =>
    inferInstanceAs (Decidable True)

/-- One step of the scheduler. -/
def Step (s : Sched) (e : Event) (s' : Sched) : Prop := Allowed s e ∧ step s e = some s'

/-- The wait object an event signals: the argument of `scheduler_wake`, or the
    PID of an exiting task. The null object is never signalled. -/
def signals (s : Sched) : Event → Option ℕ
  | .wake waitObj => if waitObj = 0 then none else some waitObj
  | .exit _ => if s.current.pid = 0 then none else some s.current.pid
  | .taskExit => if s.current.pid = 0 then none else some s.current.pid
  | _ => none

/-! ## The invariant -/

/-- What holds of the task list between two scheduler calls. -/
structure SchedInv (s : Sched) : Prop where
  ring : RingOk s
  current_lt : s.currentTask < s.count
  running : ∀ t < s.count, s.state t = .running → t = s.currentTask
  idle : Runnable (s.state s.idleTask)
  current_awake : s.state s.currentTask ≠ .blocked

/-- What holds when `scheduler_schedule` is entered: the interrupted or
    blocking task has given up `TASK_RUNNING`. -/
structure PreSchedule (s : Sched) : Prop where
  ring : RingOk s
  current_lt : s.currentTask < s.count
  not_running : ∀ t < s.count, s.state t ≠ .running
  idle : s.state s.idleTask = .ready

theorem SchedInv.init (kernelDir : ℕ) (fds : FdTable) : SchedInv (schedulerInit kernelDir fds) := by
  refine ⟨⟨[], ⟨⟨rfl, by simp⟩, by simp [schedulerInit]⟩⟩, Nat.one_pos, ?_, Or.inr rfl, ?_⟩
  · intro t ht _
    have : t < 1 := ht
    show t = 0
    omega
  · show TaskState.running ≠ .blocked
    decide

/-! ## Linking a new task -/

@[simp] theorem linkTask_count (s : Sched) (n : NewTask) : (linkTask s n).count = s.count + 1 := rfl

@[simp] theorem linkTask_currentTask (s : Sched) (n : NewTask) :
    (linkTask s n).currentTask = s.currentTask := rfl

@[simp] theorem linkTask_idleTask (s : Sched) (n : NewTask) :
    (linkTask s n).idleTask = s.idleTask := rfl

theorem linkTask_next {s : Sched} (n : NewTask) (h : s.idleTask < s.count) :
    (linkTask s n).next = Function.update (Function.update s.next s.count (s.next s.idleTask))
      s.idleTask s.count := by
  funext t
  by_cases hi : t = s.idleTask
  · subst hi
    simp [linkTask, Sched.next]
  · rw [Function.update_of_ne hi]
    by_cases hc : t = s.count
    · subst hc
      simp [linkTask, Sched.next, Sched.setTcb, Nat.ne_of_gt h]
    · simp [linkTask, Sched.next, Sched.setTcb, hi, hc]

/-- A new task is ready; the state of every other task is unchanged. -/
theorem linkTask_state {s : Sched} (n : NewTask) (h : s.idleTask < s.count) (t : ℕ) :
    (linkTask s n).state t = if t = s.count then .ready else s.state t := by
  by_cases hi : t = s.idleTask
  · subst hi
    rw [if_neg (by omega)]
    have : s.idleTask ≠ s.count := by omega
    simp [linkTask, Sched.state, Sched.setTcb, this]
  · by_cases hc : t = s.count
    · subst hc
      simp [linkTask, Sched.state, Sched.setTcb, hi]
    · simp [linkTask, Sched.state, Sched.setTcb, hi, hc]

theorem linkTask_tcb_of_ne {s : Sched} (n : NewTask) {t : ℕ} (ht : t ≠ s.count)
    (hi : t ≠ s.idleTask) : (linkTask s n).tcb t = s.tcb t := by
  simp [linkTask, Sched.setTcb, hi, ht]

/-- Of a task that is there already, no more than its place in the ring changes. -/
theorem linkTask_tcb_of_lt {s : Sched} (n : NewTask) {t : ℕ} (ht : t < s.count) :
    ∃ next, (linkTask s n).tcb t = { s.tcb t with next := next } := by
  have hc : t ≠ s.count := by omega
  by_cases hi : t = s.idleTask
  · subst hi
    refine ⟨s.count, ?_⟩
    simp [linkTask, Sched.setTcb, hc]
  · exact ⟨(s.tcb t).next, linkTask_tcb_of_ne n hc hi⟩

theorem RingOk.linkTask {s : Sched} (h : RingOk s) (n : NewTask) : RingOk (linkTask s n) := by
  have hlt := h.idle_lt
  obtain ⟨l, hr, hp⟩ := h
  have hnew : s.count ∉ s.idleTask :: l := by
    rw [hp.mem_iff]; simp
  refine ⟨s.count :: l, ?_, ?_⟩
  · rw [linkTask_next n hlt]
    exact hr.insert hnew
  · show (s.idleTask :: s.count :: l).Perm (List.range (s.count + 1))
    rw [List.range_succ]
    calc (s.idleTask :: s.count :: l).Perm (s.count :: s.idleTask :: l) := List.Perm.swap _ _ _
      _ |>.Perm (s.count :: List.range s.count) := hp.cons _
      _ |>.Perm (List.range s.count ++ [s.count]) := (List.perm_append_singleton _ _).symm

theorem SchedInv.linkTask {s : Sched} (h : SchedInv s) (n : NewTask) : SchedInv (linkTask s n) := by
  have hlt := h.ring.idle_lt
  have hcur := h.current_lt
  refine ⟨h.ring.linkTask n, by simp only [linkTask_count, linkTask_currentTask]; omega, ?_, ?_, ?_⟩
  · intro t ht hrun
    rw [linkTask_state n hlt] at hrun
    split_ifs at hrun with hc
    exact h.running t (by rw [linkTask_count] at ht; omega) hrun
  · rw [linkTask_state n hlt, linkTask_idleTask, if_neg (by omega)]
    exact h.idle
  · rw [linkTask_state n hlt, linkTask_currentTask, if_neg (by omega)]
    exact h.current_awake

/-! ## Scheduling -/

theorem switchTo_state (s : Sched) (u t : ℕ) :
    (switchTo s u).state t =
      if t = u ∧ (u ≠ s.currentTask ∨ s.state u = .blocked) then .running else s.state t := by
  simp only [Sched.state, switchTo_tcb]
  split_ifs <;> rfl

/-- `scheduler_schedule` returns and selects a task that was `TASK_READY`. -/
theorem PreSchedule.schedule {s : Sched} (h : PreSchedule s) :
    ∃ u, schedulerSchedule s = some (switchTo s u) ∧ u < s.count ∧ s.state u = .ready ∧
      SchedInv (switchTo s u) := by
  obtain ⟨u, hs, hu, hcase⟩ := schedulerSchedule_spec h.ring h.current_lt
  have hready : s.state u = .ready := by
    rcases hcase with ⟨_, hr⟩ | ⟨rfl, hno⟩
    · exact hr.resolve_right (h.not_running u hu)
    · -- nobody else is runnable, so the current task is the idle task
      by_cases hi : s.currentTask = s.idleTask
      · rw [hi]; exact h.idle
      · exact absurd (Or.inl h.idle) (hno _ h.ring.idle_lt (Ne.symm hi))
  refine ⟨u, hs, hu, hready, ?_⟩
  refine ⟨h.ring.of_next_eq (by simp) (by simp) (switchTo_next s u), by simpa using hu, ?_, ?_, ?_⟩
  · intro t ht hrun
    rw [switchTo_state] at hrun
    split_ifs at hrun with hc
    · simpa using hc.1
    · exact absurd hrun (h.not_running t (by simpa using ht))
  · rw [switchTo_state, switchTo_idleTask]
    split_ifs
    · exact Or.inr rfl
    · exact Or.inl h.idle
  · rw [switchTo_state, switchTo_currentTask]
    split_ifs
    · decide
    · rw [hready]; decide

theorem preempt_state (s : Sched) (r t : ℕ) :
    (preempt s r).state t = if t = s.currentTask ∧ s.state t = .running then .ready
      else s.state t := by
  by_cases ht : t = s.currentTask
  · subst ht
    simp [preempt, Sched.state, Sched.current]
  · simp [preempt, Sched.state, Sched.setTcb_tcb_of_ne _ _ ht, ht]

theorem preempt_next (s : Sched) (r : ℕ) : (preempt s r).next = s.next := Sched.setTcb_next rfl

theorem SchedInv.preempt {s : Sched} (h : SchedInv s) (r : ℕ) : PreSchedule (preempt s r) := by
  refine ⟨h.ring.of_next_eq rfl rfl (preempt_next s r), h.current_lt, ?_, ?_⟩
  · intro t ht hrun
    rw [preempt_state] at hrun
    split_ifs at hrun with hc
    exact hc ⟨h.running t ht hrun, hrun⟩
  · rw [preempt_state]
    split_ifs with hc
    · rfl
    · rcases h.idle with hr | hr
      · exact hr
      · exact absurd ⟨h.running _ h.ring.idle_lt hr, hr⟩ hc

/-- The state in which `scheduler_block` calls `scheduler_schedule`. -/
def blockCurrent (s : Sched) (waitObj frame : ℕ) : Sched :=
  s.setTcb s.currentTask { s.current with esp := frame, waitObj := waitObj, state := .blocked }

theorem schedulerBlock_eq (s : Sched) (o f : ℕ) :
    schedulerBlock s o f = schedulerSchedule (blockCurrent s o f) := by
  simp [schedulerBlock, schedulerPerformSwitch, blockCurrent, Sched.setTcb, Sched.current]

theorem blockCurrent_state (s : Sched) (o f t : ℕ) :
    (blockCurrent s o f).state t = if t = s.currentTask then .blocked else s.state t :=
  Sched.setTcb_state s s.currentTask _ t

theorem blockCurrent_next (s : Sched) (o f : ℕ) : (blockCurrent s o f).next = s.next :=
  Sched.setTcb_next rfl

theorem SchedInv.blockCurrent {s : Sched} (h : SchedInv s) (hi : s.currentTask ≠ s.idleTask)
    (o f : ℕ) : PreSchedule (blockCurrent s o f) := by
  refine ⟨h.ring.of_next_eq rfl rfl (blockCurrent_next s o f), h.current_lt, ?_, ?_⟩
  · intro t ht hrun
    rw [blockCurrent_state] at hrun
    split_ifs at hrun with hc
    exact hc (h.running t ht hrun)
  · show (Scheduler.blockCurrent s o f).state s.idleTask = .ready
    rw [blockCurrent_state, if_neg (Ne.symm hi)]
    exact h.idle.resolve_right fun hr => hi (h.running _ h.ring.idle_lt hr).symm

/-! ## Waking and exit -/

theorem wakeAll_state (s : Sched) (o t : ℕ) :
    (wakeAll s o).state t =
      if t < s.count ∧ s.state t = .blocked ∧ (s.tcb t).waitObj = o then .ready
      else s.state t := by
  simp only [Sched.state, wakeAll, wakeTcb]
  by_cases ht : t < s.count
  · rw [if_pos ht]
    by_cases hb : (s.tcb t).state = .blocked ∧ (s.tcb t).waitObj = o
    · simp [ht, hb]
    · simp [ht, hb]
  · simp [ht]

theorem SchedInv.wakeAll {s : Sched} (h : SchedInv s) (o : ℕ) : SchedInv (wakeAll s o) := by
  refine ⟨h.ring.of_next_eq rfl rfl (wakeAll_next s o), h.current_lt, ?_, ?_, ?_⟩
  · intro t ht hrun
    rw [wakeAll_state] at hrun
    split_ifs at hrun
    exact h.running t ht hrun
  · rw [wakeAll_state]
    split_ifs
    · exact Or.inl rfl
    · exact h.idle
  · show (Scheduler.wakeAll s o).state s.currentTask ≠ .blocked
    rw [wakeAll_state]
    split_ifs
    · decide
    · exact h.current_awake

/-- `scheduler_wake` returns and keeps the invariant. -/
theorem SchedInv.wake {s : Sched} (h : SchedInv s) (o : ℕ) :
    ∃ s', schedulerWake s o = some s' ∧ SchedInv s' := by
  by_cases ho : o = 0
  · subst ho
    exact ⟨s, schedulerWake_zero s, h⟩
  · exact ⟨_, schedulerWake_eq h.ring ho, h.wakeAll o⟩

/-- The current task marked exited, before its waiters are woken. -/
def exitedCurrent (s : Sched) (exitCode : ℤ) : Sched :=
  s.setTcb s.currentTask { s.current with state := .exited, exitCode := exitCode }

theorem markExited_eq (s : Sched) (c : ℤ) :
    markExited s c = schedulerWake (exitedCurrent s c) s.current.pid := rfl

theorem exitedCurrent_state (s : Sched) (c : ℤ) (t : ℕ) :
    (exitedCurrent s c).state t = if t = s.currentTask then .exited else s.state t :=
  Sched.setTcb_state s s.currentTask _ t

theorem exitedCurrent_next (s : Sched) (c : ℤ) : (exitedCurrent s c).next = s.next :=
  Sched.setTcb_next rfl

theorem SchedInv.exitedCurrent {s : Sched} (h : SchedInv s) (hi : s.currentTask ≠ s.idleTask)
    (c : ℤ) : SchedInv (exitedCurrent s c) := by
  refine ⟨h.ring.of_next_eq rfl rfl (exitedCurrent_next s c), h.current_lt, ?_, ?_, ?_⟩
  · intro t ht hrun
    rw [exitedCurrent_state] at hrun
    split_ifs at hrun
    exact h.running t ht hrun
  · show Runnable ((Scheduler.exitedCurrent s c).state s.idleTask)
    rw [exitedCurrent_state, if_neg (Ne.symm hi)]
    exact h.idle
  · show (Scheduler.exitedCurrent s c).state s.currentTask ≠ .blocked
    rw [exitedCurrent_state, if_pos rfl]
    decide

theorem SchedInv.markExited {s : Sched} (h : SchedInv s) (hi : s.currentTask ≠ s.idleTask)
    (c : ℤ) : ∃ s', markExited s c = some s' ∧ SchedInv s' := by
  rw [markExited_eq]
  exact (h.exitedCurrent hi c).wake _

/-! ## Every step keeps the invariant -/

theorem SchedInv.step {s s' : Sched} {e : Event} (h : SchedInv s) (hs : Step s e s') :
    SchedInv s' := by
  obtain ⟨ha, hs⟩ := hs
  cases e with
  | createTask d st fds | createUserTask d st esp tty fds => cases hs; exact h.linkTask _
  | fork d esp fds =>
    cases hs
    unfold forkCurrent
    split_ifs
    · exact h
    · exact h.linkTask _
  | tick r =>
    obtain ⟨u, hu, -, -, hinv⟩ := (h.preempt r).schedule
    have : some (switchTo (Scheduler.preempt s r) u) = some s' := hu.symm.trans hs
    cases this
    exact hinv
  | block o f =>
    obtain ⟨u, hu, -, -, hinv⟩ := (h.blockCurrent ha o f).schedule
    have : some (switchTo (Scheduler.blockCurrent s o f) u) = some s' := by
      rw [← hu, ← schedulerBlock_eq]; exact hs
    cases this
    exact hinv
  | wake o =>
    obtain ⟨t, ht, hinv⟩ := h.wake o
    have : some t = some s' := ht.symm.trans hs
    cases this
    exact hinv
  | exit c =>
    obtain ⟨t, ht, hinv⟩ := h.markExited ha c
    have hs' : Scheduler.markExited s c = some s' := by
      have : schedulerExitCurrent s c = some s' := hs
      rwa [schedulerExitCurrent, if_neg ha] at this
    cases ht.symm.trans hs'
    exact hinv
  | taskExit =>
    obtain ⟨t, ht, hinv⟩ := h.markExited ha 0
    have : some t = some s' := ht.symm.trans hs
    cases this
    exact hinv

theorem schedInv_of_reachable {kernelDir : ℕ} {fds : FdTable} {s : Sched}
    (h : Reachable Step (schedulerInit kernelDir fds) s) : SchedInv s :=
  h.invariant (SchedInv.init kernelDir fds) fun _ _ _ hu hs => hu.step hs

/-! ## A blocked task sleeps until it is signalled -/

theorem switchTo_tcb_of_ne {s : Sched} {u t : ℕ} (h : t ≠ u) :
    (switchTo s u).tcb t = s.tcb t := by
  rw [switchTo_tcb, if_neg fun hc => h hc.1]

theorem wakeAll_tcb_of_ne {s : Sched} {o t : ℕ} (h : (s.tcb t).waitObj ≠ o) :
    (wakeAll s o).tcb t = s.tcb t := by
  simp [wakeAll, wakeTcb, h]

theorem schedulerWake_tcb_of_ne {s s' : Sched} {o t : ℕ} (h : RingOk s)
    (hw : schedulerWake s o = some s') (hne : o ≠ 0 → (s.tcb t).waitObj ≠ o) :
    s'.tcb t = s.tcb t ∧ s'.count = s.count := by
  obtain ⟨-, rfl⟩ | ⟨ho, rfl⟩ := schedulerWake_cases h hw
  · exact ⟨rfl, rfl⟩
  · exact ⟨wakeAll_tcb_of_ne (hne ho), rfl⟩

theorem markExited_tcb_of_ne {s s' : Sched} {c : ℤ} {t : ℕ} (h : SchedInv s)
    (hs : markExited s c = some s') (ht : t ≠ s.currentTask)
    (hne : s.current.pid ≠ 0 → (s.tcb t).waitObj ≠ s.current.pid) :
    s'.tcb t = s.tcb t ∧ s'.count = s.count := by
  have htcb : (exitedCurrent s c).tcb t = s.tcb t := Sched.setTcb_tcb_of_ne _ _ ht
  have hring : RingOk (exitedCurrent s c) :=
    h.ring.of_next_eq rfl rfl (exitedCurrent_next s c)
  rw [markExited_eq] at hs
  obtain ⟨h1, h2⟩ := schedulerWake_tcb_of_ne hring hs (t := t) (by rw [htcb]; exact hne)
  exact ⟨h1.trans htcb, h2⟩

/-- The scheduler never switches to a blocked task. -/
theorem PreSchedule.schedule_tcb {s s' : Sched} {t : ℕ} (h : PreSchedule s)
    (hs : schedulerSchedule s = some s') (hb : s.state t = .blocked) :
    s'.tcb t = s.tcb t ∧ s'.count = s.count := by
  obtain ⟨u, hu, -, hready, -⟩ := h.schedule
  rw [hu] at hs
  cases hs
  have htu : t ≠ u := by
    rintro rfl
    rw [hready] at hb
    cases hb
  exact ⟨switchTo_tcb_of_ne htu, switchTo_count s u⟩

/-- A step that does not signal the object a task is blocked on does not touch
    the task's control block. -/
theorem SchedInv.blocked_step {s s' : Sched} {e : Event} (h : SchedInv s) (hs : Step s e s')
    {t : ℕ} (ht : t < s.count) (hb : s.state t = .blocked)
    (hsig : signals s e ≠ some (s.tcb t).waitObj) :
    s'.tcb t = s.tcb t ∧ s.count ≤ s'.count := by
  have htc : t ≠ s.currentTask := by rintro rfl; exact h.current_awake hb
  have hti : t ≠ s.idleTask := by
    rintro rfl
    rcases h.idle with hr | hr <;> rw [hb] at hr <;> cases hr
  have hlink : ∀ n, (Scheduler.linkTask s n).tcb t = s.tcb t ∧
      s.count ≤ (Scheduler.linkTask s n).count := fun n =>
    ⟨linkTask_tcb_of_ne n (by omega) hti, by rw [linkTask_count]; omega⟩
  have hne : ∀ o, signals s e = (if o = 0 then none else some o) → o ≠ 0 →
      (s.tcb t).waitObj ≠ o := by
    intro o ho h0 heq
    rw [if_neg h0] at ho
    exact hsig (by rw [ho, heq])
  obtain ⟨ha, hs⟩ := hs
  cases e with
  | createTask d st fds | createUserTask d st esp tty fds => cases hs; exact hlink _
  | fork d esp fds =>
    cases hs
    unfold forkCurrent
    split_ifs
    · exact ⟨rfl, le_rfl⟩
    · exact hlink _
  | tick r =>
    have htcb : (Scheduler.preempt s r).tcb t = s.tcb t := Sched.setTcb_tcb_of_ne _ _ htc
    have hsch : schedulerSchedule (Scheduler.preempt s r) = some s' := hs
    obtain ⟨h1, h2⟩ := (h.preempt r).schedule_tcb hsch (by rw [Sched.state, htcb]; exact hb)
    exact ⟨h1.trans htcb, h2.ge⟩
  | block o f =>
    have htcb : (Scheduler.blockCurrent s o f).tcb t = s.tcb t :=
      Sched.setTcb_tcb_of_ne _ _ htc
    have hsch : schedulerSchedule (Scheduler.blockCurrent s o f) = some s' := by
      rw [← schedulerBlock_eq]; exact hs
    obtain ⟨h1, h2⟩ :=
      (h.blockCurrent ha o f).schedule_tcb hsch (by rw [Sched.state, htcb]; exact hb)
    exact ⟨h1.trans htcb, h2.ge⟩
  | wake o =>
    obtain ⟨h1, h2⟩ := schedulerWake_tcb_of_ne h.ring hs (t := t) (hne o rfl)
    exact ⟨h1, h2.ge⟩
  | exit c =>
    have hs' : Scheduler.markExited s c = some s' := by
      have : schedulerExitCurrent s c = some s' := hs
      rwa [schedulerExitCurrent, if_neg ha] at this
    obtain ⟨h1, h2⟩ := markExited_tcb_of_ne h hs' htc (hne _ rfl)
    exact ⟨h1, h2.ge⟩
  | taskExit =>
    obtain ⟨h1, h2⟩ := markExited_tcb_of_ne h hs htc (hne _ rfl)
    exact ⟨h1, h2.ge⟩

/-- Along a run in which nothing signals its wait object, a blocked task stays
    blocked on that object. -/
theorem SchedInv.blocked_run {s s' : Sched} {t w : ℕ} {es : List Event} (h : SchedInv s)
    (hr : Run (restrict Step fun u e => signals u e ≠ some w) s es s') (ht : t < s.count)
    (hb : s.state t = .blocked) (hw : (s.tcb t).waitObj = w) :
    SchedInv s' ∧ t < s'.count ∧ s'.state t = .blocked ∧ (s'.tcb t).waitObj = w := by
  refine hr.invariant (P := fun u => SchedInv u ∧ t < u.count ∧ u.state t = .blocked ∧
    (u.tcb t).waitObj = w) ⟨h, ht, hb, hw⟩ ?_
  rintro u e v ⟨hu, htu, hbu, hwu⟩ ⟨hsig, hs⟩
  obtain ⟨h1, h2⟩ := hu.blocked_step hs htu hbu (by rw [hwu]; exact hsig)
  exact ⟨hu.step hs, by omega, by rw [Sched.state, h1]; exact hbu, by rw [h1]; exact hwu⟩

/-! ## The selected task -/

/-- `s'` was entered by a switch to a task that was runnable in `s` and is
    runnable in `s'`. -/
def SelectsRunnable (s s' : Sched) : Prop :=
  Runnable (s.state s'.currentTask) ∧ Runnable (s'.state s'.currentTask)

theorem SchedInv.tick_selects {s : Sched} (h : SchedInv s) (r : ℕ) :
    ∃ s', schedulerTick s r = some s' ∧ SelectsRunnable s s' := by
  obtain ⟨u, hu, -, hready, -⟩ := (h.preempt r).schedule
  refine ⟨_, hu, ?_, ?_⟩
  · rw [switchTo_currentTask]
    rw [preempt_state] at hready
    split_ifs at hready with hc
    · exact Or.inr hc.2
    · exact Or.inl hready
  · rw [switchTo_currentTask, switchTo_state]
    split_ifs
    · exact Or.inr rfl
    · exact Or.inl hready

theorem SchedInv.block_selects {s : Sched} (h : SchedInv s) (hi : s.currentTask ≠ s.idleTask)
    (o f : ℕ) : ∃ s', schedulerBlock s o f = some s' ∧ SelectsRunnable s s' := by
  obtain ⟨u, hu, -, hready, -⟩ := (h.blockCurrent hi o f).schedule
  refine ⟨_, (schedulerBlock_eq s o f).trans hu, ?_, ?_⟩
  · rw [switchTo_currentTask]
    rw [blockCurrent_state] at hready
    split_ifs at hready
    exact Or.inl hready
  · rw [switchTo_currentTask, switchTo_state]
    split_ifs
    · exact Or.inr rfl
    · exact Or.inl hready

end Mboot.Scheduler
