import Mboot.Scheduler.System

/-!
# Lost wakeups of `waitpid`

`scheduler_wait_pid` looks at the state of the child and then calls
`scheduler_block`. Both run with interrupts enabled, and so does
`scheduler_exit_current`, so a tick may switch tasks between the look and the
sleep of the waiter, or between the mark and the wake of the exiting task. The
system is the one of `Mboot.Scheduler.System`.

* `LostWaiter`: a task sleeps in `waitpid` for a task that has exited, and no
  continuation without an unrelated signal wakes it.
* `no_lost_waiter`: no waiter is lost in a run in which no `waitpid` goes to
  sleep for a task that has exited in the meantime and no tick interrupts an
  `exit` somebody sleeps for (`SleepSafe`).
* `waitpid_loses_wakeup`: one tick between the look and the sleep is enough to
  lose a waiter.
-/

namespace Mboot.Scheduler

open Common

/-! ## Safe steps lose nobody -/

/-- The current task is inside `exit`, between its first store and its wake. -/
def System.inExit (s : System) : Bool :=
  match s.cont s.sched.currentTask with
  | .exitMarked _ | .exitRecorded => true
  | _ => false

/-- The steps that lose no wakeup. Each clause looks at the state before the
    step:
    * a tick does not interrupt an `exit` before its wake while a task sleeps in
      `waitpid` for the exiting task;
    * `waitpid` does not go to sleep for a task that has exited since the check. -/
def SleepSafe (s : System) : Action → Prop
  | .sched (.tick _) => s.inExit = true →
      ∀ t < s.sched.count, s.cont t = .waitAsleep s.sched.current.pid → s.sched.state t ≠ .blocked
  | .waitBlock _ => ∀ u < s.sched.count,
      s.cont s.sched.currentTask = .waitFound (s.sched.tcb u).pid → s.sched.state u ≠ .exited
  | _ => True

instance (s : System) : DecidablePred (SleepSafe s)
  | .sched (.tick _) => inferInstanceAs (Decidable (s.inExit = true → ∀ t < _, _ → _ ≠ _))
  | .waitBlock _ => inferInstanceAs (Decidable (∀ u < _, _ → _ ≠ _))
  | .sched (.createTask ..) | .sched (.createUserTask ..) | .sched (.fork ..) | .sched (.block ..)
  | .sched (.wake _) | .sched (.exit _) | .sched .taskExit | .udpServerBind _ | .signal _
  | .waitCheck _ | .waitReturn .. | .exitMark _ | .exitRecord | .exitWake => .isTrue trivial

/-- Whoever sleeps in `waitpid` for an exited task is about to be woken by it. -/
def Watched (s : System) : Prop :=
  ∀ t < s.sched.count, ∀ u < s.sched.count, s.cont t = .waitAsleep u →
    s.sched.state t = .blocked → s.sched.state u = .exited →
    u = s.sched.currentTask ∧ s.inExit = true

section

variable {sig : Option ℕ} {s s' : System} {a : Action} {c : Sched}

/-- A step keeps the sleepers watched if it does so for the task that takes it,
    as a sleeper and as the one that is slept for. -/
theorem Watched.of_moves (hw : Watched s) (h : SleepInv s) (hm : Moves sig s s')
    (hsleeper : ∀ u < s'.sched.count, s'.cont s.sched.currentTask = .waitAsleep u →
      s'.sched.state s.sched.currentTask = .blocked → s'.sched.state u ≠ .exited)
    (hexit : ∀ t < s.sched.count, s.cont t = .waitAsleep s.sched.currentTask →
      s.sched.state t = .blocked → s'.sched.state t = .blocked →
      s'.sched.state s.sched.currentTask = .exited →
      s.sched.currentTask = s'.sched.currentTask ∧ s'.inExit = true) : Watched s' := by
  intro t _ u hu hk hb hex
  by_cases htc : t = s.sched.currentTask
  · subst htc
    exact absurd hex (hsleeper u hu hk hb)
  · rw [hm.cont t htc] at hk
    have ht : t < s.sched.count := by
      by_contra hge
      rw [h.fresh t (by omega)] at hk
      cases hk
    have hv := (h.slept_for ht hk).1
    have hb0 := (hm.effect.others t ht htc).blocked_of hb
    by_cases huc : u = s.sched.currentTask
    · subst huc
      exact hexit t ht hk hb0 hb hex
    · exact absurd (hw t ht u hv hk hb0 ((hm.effect.others u hv huc).exited.mp hex)).1 huc

/-- The same for a step after which the task that takes it is not asleep. -/
theorem Watched.of_sleeps (hw : Watched s) (h : SleepInv s) (hm : Moves sig s s')
    (hown : Sleeps sig s.sched.current (s'.sched.tcb s.sched.currentTask))
    (hexit : ∀ t < s.sched.count, s.cont t = .waitAsleep s.sched.currentTask →
      s.sched.state t = .blocked → s.inExit = true →
      s.sched.currentTask = s'.sched.currentTask ∧ s'.inExit = true) : Watched s' := by
  refine hw.of_moves h hm (fun u _ _ hb => ?_) fun t ht hk hb _ hex => ?_
  · exact absurd (hown.blocked_of hb) h.sched.current_awake
  · exact hexit t ht hk hb (hw t ht _ h.sched.current_lt hk hb (hown.exited.mp hex)).2

/-- Outside `exit` and without a switch nothing happens to the current task. -/
theorem Watched.of_calm (hw : Watched s) (h : SleepInv s) (hm : Moves sig s s')
    (hin : s.inExit = false)
    (hown : Sleeps sig s.sched.current (s'.sched.tcb s.sched.currentTask)) : Watched s' :=
  hw.of_sleeps h hm hown fun _ _ _ _ hin' => by rw [hin] at hin'; cases hin'

theorem inExit_of_user (h : s.cont s.sched.currentTask = .user) : s.inExit = false := by
  simp [System.inExit, h]

theorem Watched.permitted (hw : Watched s) (h : SleepInv s) {e : Event} (hp : Permitted s e)
    (hsafe : SleepSafe s (.sched e)) (hs : Scheduler.step s.sched e = some c) :
    Watched { s with sched := c } := by
  have hlt := h.sched.current_lt
  have hm := (h.permitted hp hs).2
  have hlink : ∀ n, c = linkTask s.sched n → s.cont s.sched.currentTask = .user →
      Watched { s with sched := c } := by
    rintro n rfl hu
    exact hw.of_calm h hm (inExit_of_user hu) (linkTask_sleeps n hlt)
  cases e with
  | createTask d st fds | createUserTask d st esp tty fds => cases hs; exact hlink _ rfl hp.1
  | fork d esp fds =>
    cases hs
    unfold forkCurrent at hlink ⊢
    split_ifs at hlink ⊢
    · exact hw
    · exact hlink _ rfl hp.1
  | tick r =>
    have hpid : s.sched.current.pid = s.sched.currentTask := h.numbered.pids _ hlt
    refine hw.of_sleeps h hm (h.sched.tick_effect hs).2 fun t ht hk hb hin => ?_
    exact absurd hb (hsafe hin t ht (by rw [hpid]; exact hk))
  | block o f =>
    obtain ⟨-, hb, -, -⟩ := h.sched.block_effect hp.2 hs
    refine hw.of_moves h hm (fun u _ hk _ => ?_) fun t _ _ _ _ hex => ?_
    · cases hp.1.symm.trans hk
    · exact absurd (hb.symm.trans hex) (by decide)
  | wake o | exit code | taskExit => exact hp.elim

/-- The sleep of `waitpid`: the task slept for has not exited. -/
theorem Watched.waitBlock (hw : Watched s) (h : SleepInv s) {pid : ℤ} {frame : ℕ}
    (hk : s.cont s.sched.currentTask = .waitFound pid) (hsafe : SleepSafe s (.waitBlock frame))
    (hs : schedulerBlock s.sched pid.toNat frame = some c)
    (hm : Moves none s ({ s with sched := c }.setCont s.sched.currentTask (.waitAsleep pid))) :
    Watched ({ s with sched := c }.setCont s.sched.currentTask (.waitAsleep pid)) := by
  obtain ⟨he, hb, -, -⟩ := h.sched.block_effect (h.current_ne_idle (by simp [hk])) hs
  have hok := h.conts _ h.sched.current_lt
  rw [hk] at hok
  obtain ⟨u, hu, rfl⟩ := hok
  refine hw.of_moves h hm (fun v _ hv _ hex => ?_) fun t _ _ _ _ hex => ?_
  · have hv' : Function.update s.cont s.sched.currentTask (.waitAsleep u) s.sched.currentTask =
      .waitAsleep v := hv
    rw [Function.update_self] at hv'
    obtain rfl : u = v := by simpa using hv'
    by_cases huc : u = s.sched.currentTask
    · subst huc
      exact absurd (hb.symm.trans hex) (by decide)
    · refine hsafe u hu ?_ ((he.others u hu huc).exited.mp hex)
      rw [hk, h.numbered.pids u hu]
  · exact absurd (hb.symm.trans hex) (by decide)

/-- The stores of `exit`: the sleepers are watched by the exiting task. -/
theorem Watched.exiting (hw : Watched s) (h : SleepInv s) {s₀ : System} {k : Cont}
    (hk : (∃ code, k = .exitMarked code) ∨ k = .exitRecorded)
    (hm : Moves none s (s₀.setCont s.sched.currentTask k))
    (hcur : s₀.sched.currentTask = s.sched.currentTask)
    (hex : s₀.sched.state s.sched.currentTask = .exited) :
    Watched (s₀.setCont s.sched.currentTask k) := by
  refine hw.of_moves h hm (fun u _ _ hb => ?_) fun _ _ _ _ _ _ => ⟨hcur.symm, ?_⟩
  · exact absurd (hex.symm.trans hb) (by decide)
  · show (match Function.update s₀.cont s.sched.currentTask k s₀.sched.currentTask with
      | .exitMarked _ | .exitRecorded => true
      | _ => false) = true
    rw [hcur, Function.update_self]
    rcases hk with ⟨code, rfl⟩ | rfl <;> rfl

/-- The wake of `exit` leaves nobody asleep on its PID. -/
theorem SleepInv.woken (h : SleepInv s) (hk : s.cont s.sched.currentTask = .exitRecorded)
    (hs : schedulerWake s.sched s.sched.current.pid = some c) {t : ℕ} (ht : t < s.sched.count)
    (hwait : s.cont t = .waitAsleep s.sched.currentTask) : c.state t ≠ .blocked := by
  intro hb
  have hi := h.current_ne_idle (by simp [hk])
  have hpid : s.sched.current.pid = s.sched.currentTask := h.numbered.pids _ h.sched.current_lt
  obtain ⟨-, -, -, hall, hwoken⟩ := wake_effect h.sched.ring hs
  refine hwoken (by rw [hpid, ← h.idle]; exact hi) t ht hb ?_
  rw [(hall t ht).waitObj, hpid]
  exact (h.slept_for ht hwait).2 ((hall t ht).blocked_of hb)

theorem Watched.step (hw : Watched s) (h : SleepInv s) (hsafe : SleepSafe s a)
    (hs : s.step a = some s') : Watched s' := by
  have hm := (h.step hs).2
  have hlt := h.sched.current_lt
  cases System.does hs with
  | sched hp hc => exact hw.permitted h hp hsafe hc
  | udpServerBind => exact hw
  | @signal w c hc =>
    obtain ⟨-, hcur, -, hall, -⟩ := wake_effect h.sched.ring hc
    refine hw.of_sleeps h hm (hall _ hlt) fun _ _ _ _ hin => ⟨hcur.symm, ?_⟩
    rw [← hin]
    show (match s.cont c.currentTask with
      | .exitMarked _ | .exitRecorded => true
      | _ => false) = s.inExit
    rw [hcur]
    rfl
  | waitCheck hk => exact hw.of_calm h hm (inExit_of_user hk) (Sleeps.refl _ _)
  | waitBlock hk hc => exact hw.waitBlock h hk hsafe hc hm
  | waitFinds => exact hw
  | waitReturn hk => exact hw.of_calm h hm (by simp [System.inExit, hk]) (Sleeps.refl _ _)
  | exitMark =>
    refine hw.exiting h (.inl ⟨_, rfl⟩) hm rfl ?_
    rw [exitedCurrent_state, if_pos rfl]
  | exitRecord hk =>
    refine hw.exiting h (.inr rfl) hm rfl ?_
    rw [exitRecord_eq (h.exitMarked hk), exitedCurrent_state, if_pos rfl]
  | exitWake hk hc =>
    obtain ⟨-, -, -, hall, -⟩ := wake_effect h.sched.ring hc
    refine hw.of_moves h hm (fun u _ _ hb => ?_) fun t ht hwait _ hb _ => ?_
    · exact absurd ((hall _ hlt).blocked_of hb) h.sched.current_awake
    · exact absurd hb (h.woken hk hc ht hwait)

end

/-! ## Main theorem -/

/-- The step is not one of the signals that have nothing to do with `exit`. -/
def Unsignalled (_ : System) (a : Action) : Prop := ∀ w, a ≠ .signal w

/-- Task `t` sleeps in `waitpid` for a task that has exited, and it sleeps in
    every state that can follow without a fork that copies a control block. -/
def LostWaiter (c : Spaces System) (t : ℕ) : Prop :=
  t < c.sys.sched.count ∧ ∃ u < c.sys.sched.count,
    c.sys.cont t = .waitAsleep (c.sys.sched.tcb u).pid ∧ c.sys.sched.state t = .blocked ∧
    (c.sys.sched.tcb t).waitObj = (c.sys.sched.tcb u).pid ∧ c.sys.sched.state u = .exited ∧
    ∀ c', Reachable (UndisturbedStep inSystem Unsignalled) c c' → c'.sys.sched.state t = .blocked

/-- The last step of `exit` wakes whoever sleeps for the task. -/
theorem SleepInv.exitWake_wakes {s : System} (h : SleepInv s)
    (hrec : s.cont s.sched.currentTask = .exitRecorded) :
    ∃ s', s.step .exitWake = some s' ∧ ∀ t < s.sched.count,
      s.cont t = .waitAsleep s.sched.currentTask → s'.sched.state t ≠ .blocked := by
  obtain ⟨c, hc, -⟩ := h.sched.wake s.sched.current.pid
  exact ⟨{ s with sched := c }.setCont s.sched.currentTask .user, by simp [System.step, hrec, hc],
    fun t ht hwait => h.woken hrec hc ht hwait⟩

/-- A task inside `exit` can go on to its wake. -/
theorem SleepInv.finishes_exit {s : System} (h : SleepInv s) (hin : s.inExit = true) :
    ∃ s', Reachable (restrict (Steps System.step) Unsignalled) s s' ∧ ∀ t < s.sched.count,
      s.cont t = .waitAsleep s.sched.currentTask → s'.sched.state t ≠ .blocked := by
  have hplain : ∀ {s s' : System} {a : Action}, (∀ w, a ≠ .signal w) → s.step a = some s' →
      restrict (Steps System.step) Unsignalled s a s' := fun ha hs => ⟨ha, hs⟩
  cases hk : s.cont s.sched.currentTask with
  | user | waitFound pid | waitAsleep pid => simp [System.inExit, hk] at hin
  | exitMarked code =>
    have hs1 : s.step .exitRecord = some ({ s with
        sched := s.sched.setTcb s.sched.currentTask
          { s.sched.current with exitCode := code } }.setCont s.sched.currentTask
            .exitRecorded) := by
      simp [System.step, hk]
    obtain ⟨s2, hs2, hwakes⟩ := (h.step hs1).1.exitWake_wakes (Function.update_self ..)
    refine ⟨s2, ((Reachable.refl s).snoc (hplain (by simp) hs1)).snoc (hplain (by simp) hs2),
      fun t ht hwait => hwakes t ht ?_⟩
    have htc : t ≠ s.sched.currentTask := by
      rintro rfl
      rw [hk] at hwait
      cases hwait
    exact (Function.update_of_ne htc _ _).trans hwait
  | exitRecorded =>
    obtain ⟨s2, hs2, hwakes⟩ := h.exitWake_wakes hk
    exact ⟨s2, (Reachable.refl s).snoc (hplain (by simp) hs2), hwakes⟩

/-- **Safe steps lose no wakeup.** In every run from boot whose steps are all
    safe, with no fork that copies a control block, no task sleeps in `waitpid` for a
    task that has exited and will not wake it. -/
theorem no_lost_waiter {kernelDir : ℕ} {fds : FdTable} {c : Spaces System}
    {es : List (SpaceEvent Action)}
    (hrun : Run (UndisturbedStep inSystem SleepSafe) (.start (boot kernelDir fds)) es c) (t : ℕ) :
    ¬ LostWaiter c t := by
  obtain ⟨s, rfl, hreach⟩ := run_of_undisturbed hrun
  have hinv : SleepInv s ∧ Watched s := by
    refine hreach.invariant (P := fun s => SleepInv s ∧ Watched s)
      ⟨SleepInv.init kernelDir fds, ?_⟩ fun u a v hu hs => ?_
    · intro t _ u _ hk
      cases hk
    · exact ⟨(hu.1.step hs.2).1, hu.2.step hu.1 hs.1 hs.2⟩
  rintro ⟨ht, u, hu, hk, hb, -, hex, hforever⟩
  simp only [Spaces.start_sys] at hk
  rw [hinv.1.numbered.pids u hu] at hk
  obtain ⟨rfl, hin⟩ := hinv.2 t ht u hu hk hb hex
  obtain ⟨s', ⟨_, hfinish⟩, hwakes⟩ := hinv.1.finishes_exit hin
  exact hwakes t ht hk (hforever (.start s') ⟨_, undisturbed_of_run (K := inSystem) hfinish⟩)

/-- Task 2 sleeps for task 1, which is in the middle of its `exit`. -/
def exitingRun : List Action :=
  [.sched (.createTask 0 4096 fun _ => -1), .sched (.createTask 0 4096 fun _ => -1),
    .sched (.tick 0), .waitCheck 1, .waitBlock 0, .exitMark 7]

theorem no_lost_waiter_during_exit :
    ∃ c, Run (UndisturbedStep inSystem SleepSafe) (.start (boot 0 fun _ => -1))
        (exitingRun.map (.run · [])) c ∧
      c.sys.sched.state 2 = .blocked ∧ c.sys.sched.state 1 = .exited ∧ ¬ LostWaiter c 2 := by
  obtain ⟨s, hs, hb, he⟩ : ∃ s, Run (restrict (Steps System.step) SleepSafe)
      (boot 0 fun _ => -1) exitingRun s ∧ s.sched.state 2 = .blocked ∧ s.sched.state 1 = .exited :=
    exists_run_restrict (by decide +kernel)
  have hrun := undisturbed_of_run (K := inSystem) hs
  exact ⟨_, hrun, hb, he, no_lost_waiter hrun 2⟩

/-! ## A tick between the check and the sleep -/

/-- `t` sleeps on the PID of the exited task `u`, which is not running. -/
structure Stuck (s : System) (t u : ℕ) : Prop where
  inv : SleepInv s
  sleeper_lt : t < s.sched.count
  exited_lt : u < s.sched.count
  blocked : s.sched.state t = .blocked
  waitObj : (s.sched.tcb t).waitObj = u
  exited : s.sched.state u = .exited
  gone : u ≠ s.sched.currentTask

/-- Nobody but `u` signals its PID, and `u` is never switched to again. -/
theorem Stuck.step {s s' : System} {a : Action} {t u : ℕ} (h : Stuck s t u)
    (ha : Unsignalled s a) (hs : s.step a = some s') : Stuck s' t u := by
  obtain ⟨hinv, he, -, -⟩ := h.inv.step hs
  have htc : t ≠ s.sched.currentTask := by
    rintro rfl
    exact h.inv.sched.current_awake h.blocked
  have hsig : signalled s a ≠ some (s.sched.tcb t).waitObj := by
    rw [h.waitObj]
    cases a with
    | signal w => exact absurd rfl (ha w)
    | exitWake =>
      show some s.sched.current.pid ≠ some u
      rw [Sched.current, h.inv.numbered.pids _ h.inv.sched.current_lt]
      exact fun heq => h.gone (Option.some.inj heq).symm
    | _ => simp [signalled]
  have ht := he.others t h.sleeper_lt htc
  have hu := he.others u h.exited_lt h.gone
  refine ⟨hinv, h.sleeper_lt.trans_le he.count_le, h.exited_lt.trans_le he.count_le,
    ht.blocked h.blocked hsig, ht.waitObj.trans h.waitObj, hu.exited.mpr h.exited, ?_⟩
  rintro rfl
  by_cases hsw : s'.sched.currentTask = s.sched.currentTask
  · exact h.gone hsw
  · exact he.switch hsw h.exited

/-- Task 2 finds task 1 alive; a tick lets task 1 run, which exits; task 2 goes
    to sleep. -/
def tickInWindow : List Action :=
  [.sched (.createTask 0 4096 fun _ => -1), .sched (.createTask 0 4096 fun _ => -1),
    .sched (.tick 0), .waitCheck 1, .sched (.tick 0), .exitMark 0, .exitRecord, .exitWake,
    .sched (.tick 0), .sched (.tick 0), .waitBlock 0]

/-- The waiter sleeps for ever. -/
theorem waitpid_loses_wakeup :
    ∃ c, Run (UndisturbedStep inSystem fun _ _ => True) (.start (boot 0 fun _ => -1))
        (tickInWindow.map (.run · [])) c ∧ LostWaiter c 2 := by
  obtain ⟨s, hrun, hcount, hcont, hb, hobj, hpid, hexit, hcur⟩ : ∃ s,
      Run (Steps System.step) (boot 0 fun _ => -1) tickInWindow s ∧ s.sched.count = 3 ∧
      s.cont 2 = .waitAsleep (s.sched.tcb 1).pid ∧ s.sched.state 2 = .blocked ∧
      (s.sched.tcb 2).waitObj = 1 ∧ (s.sched.tcb 1).pid = 1 ∧ s.sched.state 1 = .exited ∧
      s.sched.currentTask ≠ 1 :=
    exists_run (by decide +kernel)
  have hinv : SleepInv s := hrun.invariant (SleepInv.init 0 fun _ => -1) fun _ _ _ hu hst =>
    (hu.step hst).1
  have hstuck : Stuck s 2 1 :=
    ⟨hinv, by omega, by omega, hb, hobj, hexit, Ne.symm hcur⟩
  refine ⟨.start s, undisturbed_of_run (K := inSystem) (hrun.mono fun _ _ _ hst => ⟨trivial, hst⟩),
    show 2 < s.sched.count by omega, 1, show 1 < s.sched.count by omega, hcont, hb,
    hobj.trans hpid.symm, hexit, ?_⟩
  rintro c' ⟨_, hcont'⟩
  obtain ⟨s', rfl, hs'⟩ := run_of_undisturbed hcont'
  have hlast : Stuck s' 2 1 := hs'.invariant (P := fun s => Stuck s 2 1) hstuck
    fun _ _ _ hu hst => hu.step hst.1 hst.2
  exact hlast.blocked

end Mboot.Scheduler
