import Mboot.Scheduler.System

/-!
# Results of `waitpid`

`scheduler_wait_pid` sleeps on the PID cast to a pointer, in the key space all
wait objects share. The other sleepers check again after they wake;
`scheduler_wait_pid` does not. The system is the one of `Mboot.Scheduler.System`.

* `waitpid_reports_real_exits`: as long as all steps are safe (`WaitSafe`) and
  no fork copies a control block, a `waitpid` result other than `-1` is the code
  the task with that PID passed to `exit`, and the task is `TASK_EXITED`.
* `waitpid_returns_before_exit`: a datagram for a port equal to the PID ends
  the `waitpid` of a task that is still ready to run, and so does a tick in the
  child of a task whose control block was copied.
-/

namespace Mboot.Scheduler

open Common

/-- The current task is between the two stores of an `exit` with a code other
    than the one in its control block. -/
def System.tornExit (s : System) : Bool :=
  match s.cont s.sched.currentTask with
  | .exitMarked code => s.sched.current.exitCode ≠ code
  | _ => false

/-- The steps that keep `waitpid` right. Each clause looks at the state before
    the step:
    * a tick does not fall between the two stores of an `exit` that changes the
      exit code;
    * a task that has called `exit` does not go to sleep before it is preempted;
    * a signal does not hit a task that sleeps in `waitpid` for a task that has
      not exited. -/
def WaitSafe (s : System) : Action → Prop
  | .sched (.tick _) => s.tornExit = false
  | .sched (.block _ _) | .waitBlock _ => s.sched.current.state ≠ .exited
  | .signal w => ∀ t < s.sched.count, s.cont t = .waitAsleep w.obj → s.sched.state t = .blocked →
      ∀ u < s.sched.count, (s.sched.tcb u).pid = w.obj → s.sched.state u = .exited
  | _ => True

instance (s : System) : DecidablePred (WaitSafe s) := fun a => by
  unfold WaitSafe
  split <;> infer_instance

/-! ## The invariant -/

structure WaitInv (s : System) : Prop where
  base : SleepInv s
  /-- Nobody is awake in `waitpid` before the task it waits for has exited. -/
  asleep : ∀ t < s.sched.count, ∀ u : ℕ, s.cont t = .waitAsleep u →
    s.sched.state u = .exited ∨ s.sched.state t = .blocked
  marked : ∀ t < s.sched.count, ∀ code, s.cont t = .exitMarked code → s.passed t = some code
  codes : ∀ t < s.sched.count, s.sched.state t = .exited →
    s.passed t = some (s.sched.tcb t).exitCode ∨
      t = s.sched.currentTask ∧ ∃ code, s.cont t = .exitMarked code

theorem WaitInv.init (kernelDir : ℕ) (fds : FdTable) : WaitInv (boot kernelDir fds) where
  base := SleepInv.init kernelDir fds
  asleep := fun _ _ _ hk => by cases hk
  marked := fun _ _ _ hk => by cases hk
  codes := fun _ _ he => by cases he

section

variable {sig : Option ℕ} {s s' : System} {a : Action}

/-- Outside the two stores of `exit` the code of an exited task is the one it passed. -/
theorem WaitInv.code (h : WaitInv s) (hk : ∀ code, s.cont s.sched.currentTask ≠ .exitMarked code)
    {t : ℕ} (ht : t < s.sched.count) (he : s.sched.state t = .exited) :
    s.passed t = some (s.sched.tcb t).exitCode := by
  rcases h.codes t ht he with hp | ⟨rfl, code, hc⟩
  · exact hp
  · exact absurd hc (hk code)

/-- The task that runs is not asleep, so the task it waits for has exited. -/
theorem WaitInv.waited (h : WaitInv s) {u : ℕ}
    (hk : s.cont s.sched.currentTask = .waitAsleep u) : s.sched.state u = .exited :=
  (h.asleep _ h.base.sched.current_lt u hk).resolve_right h.base.sched.current_awake

/-- A step that signals `sig` keeps the invariant if it wakes nobody too early and
    the task that takes it satisfies the clauses of the invariant. -/
theorem WaitInv.of_moves (h : WaitInv s) (hbase : SleepInv s') (hm : Moves sig s s')
    (hsig : ∀ t < s.sched.count, ∀ u : ℕ, s.cont t = .waitAsleep u → s.sched.state t = .blocked →
      sig = some u → s.sched.state u = .exited)
    (hexit : s.sched.current.state = .exited → s'.sched.state s.sched.currentTask = .exited)
    (hasleep : ∀ u : ℕ, s'.cont s.sched.currentTask = .waitAsleep u →
      s'.sched.state u = .exited ∨ s'.sched.state s.sched.currentTask = .blocked)
    (hmarked : ∀ code, s'.cont s.sched.currentTask = .exitMarked code →
      s'.passed s.sched.currentTask = some code)
    (hcode : s'.sched.state s.sched.currentTask = .exited →
      s'.passed s.sched.currentTask = some (s'.sched.tcb s.sched.currentTask).exitCode ∨
        s.sched.currentTask = s'.sched.currentTask ∧
          ∃ code, s'.cont s.sched.currentTask = .exitMarked code) : WaitInv s' := by
  have hold : ∀ t, s'.cont t ≠ .user → t ≠ s.sched.currentTask → t < s.sched.count := by
    intro t hk htc
    by_contra hge
    exact hk ((hm.cont t htc).trans (h.base.fresh t (by omega)))
  refine ⟨hbase, fun t _ u hk => ?_, fun t _ code hk => ?_, fun t ht he => ?_⟩
  · by_cases htc : t = s.sched.currentTask
    · subst htc
      exact hasleep u hk
    have ht := hold t (by rw [hk]; simp) htc
    rw [hm.cont t htc] at hk
    have hother := hm.effect.others t ht htc
    obtain ⟨hu, hobj⟩ := h.base.slept_for ht hk
    have hkeep : s.sched.state u = .exited → s'.sched.state u = .exited := fun he => by
      by_cases huc : u = s.sched.currentTask
      · subst huc
        exact hexit he
      · exact (hm.effect.others u hu huc).exited.mpr he
    rcases h.asleep t ht u hk with he | hb
    · exact .inl (hkeep he)
    by_cases hs : sig = some u
    · exact .inl (hkeep (hsig t ht u hk hb hs))
    · exact .inr (hother.blocked hb (by rw [hobj hb]; exact hs))
  · by_cases htc : t = s.sched.currentTask
    · subst htc
      exact hmarked code hk
    have ht := hold t (by rw [hk]; simp) htc
    rw [hm.passed t htc]
    exact h.marked t ht code ((hm.cont t htc).symm.trans hk)
  · by_cases htc : t = s.sched.currentTask
    · subst htc
      exact hcode he
    by_cases hlt : t < s.sched.count
    · have hother := hm.effect.others t hlt htc
      have hp := (h.codes t hlt (hother.exited.mp he)).resolve_right fun hc => htc hc.1
      left
      rw [hm.passed t htc, hp, hother.exitCode]
    · exact absurd he (hm.effect.fresh t (by omega) ht)

/-- The same for a step that leaves the exit of the task that takes it alone, and
    switches to another task outside the two stores of `exit` only. -/
theorem WaitInv.of_sleeps (h : WaitInv s) {c : Sched} (hbase : SleepInv { s with sched := c })
    (he : Effect sig s.sched c) (hown : Sleeps sig s.sched.current (c.tcb s.sched.currentTask))
    (hsig : ∀ t < s.sched.count, ∀ u : ℕ, s.cont t = .waitAsleep u → s.sched.state t = .blocked →
      sig = some u → s.sched.state u = .exited)
    (hswitch : c.currentTask ≠ s.sched.currentTask → s.tornExit = false) :
    WaitInv { s with sched := c } := by
  have hlt := h.base.sched.current_lt
  refine h.of_moves hbase ⟨he, fun _ _ => rfl, fun _ _ => rfl⟩ hsig hown.exited.mpr
    (fun u hk => .inl ?_) (h.marked _ hlt) fun hex => ?_
  · have hex := h.waited hk
    by_cases huc : u = s.sched.currentTask
    · subst huc
      exact hown.exited.mpr hex
    · exact (he.others u (h.base.slept_for hlt hk).1 huc).exited.mpr hex
  · show s.passed _ = some (c.tcb _).exitCode ∨ _ = c.currentTask ∧ _
    rw [hown.exitCode]
    rcases h.codes _ hlt (hown.exited.mp hex) with hp | ⟨-, code, hk⟩
    · exact .inl hp
    by_cases hcur : c.currentTask = s.sched.currentTask
    · exact .inr ⟨hcur.symm, code, hk⟩
    · -- the two stores of this `exit` write the same code
      left
      have htorn := hswitch hcur
      simp only [System.tornExit, hk, decide_eq_false_iff_not, not_not] at htorn
      rw [h.marked _ hlt code hk, htorn]

/-- The same for a step with which the current task goes on at `k`, outside the
    two stores of `exit`. -/
theorem WaitInv.setCont (h : WaitInv s) {k : Cont}
    (hbase : SleepInv (s.setCont s.sched.currentTask k))
    (hk : ∀ code, s.cont s.sched.currentTask ≠ .exitMarked code)
    (hnew : (∀ u, k ≠ .waitAsleep u) ∧ ∀ code, k ≠ .exitMarked code) :
    WaitInv (s.setCont s.sched.currentTask k) := by
  have hself : (s.setCont s.sched.currentTask k).cont s.sched.currentTask = k :=
    Function.update_self ..
  have hstay : Moves none s s := ⟨Effect.refl _ _, fun _ _ => rfl, fun _ _ => rfl⟩
  exact h.of_moves hbase (hstay.setCont k) (fun _ _ _ _ _ hs => by cases hs) id
    (fun u hu => absurd (hself.symm.trans hu) (hnew.1 u))
    (fun code hc => absurd (hself.symm.trans hc) (hnew.2 code))
    fun he => .inl (h.code hk h.base.sched.current_lt he)

/-- A task that has not called `exit` goes to sleep. -/
theorem WaitInv.block (h : WaitInv s) (hbase : SleepInv s') (hm : Moves none s s')
    (hsafe : s.sched.current.state ≠ .exited)
    (hb : s'.sched.state s.sched.currentTask = .blocked)
    (hk : ∀ code, s'.cont s.sched.currentTask ≠ .exitMarked code) : WaitInv s' :=
  h.of_moves hbase hm (fun _ _ _ _ _ hs => by cases hs) (fun he => absurd he hsafe)
    (fun _ _ => .inr hb) (fun code hc => absurd hc (hk code))
    fun he => absurd (hb.symm.trans he) (by decide)

theorem WaitInv.permitted (h : WaitInv s) {e : Event} {c : Sched} (hp : Permitted s e)
    (hsafe : WaitSafe s (.sched e)) (hs : Scheduler.step s.sched e = some c) :
    WaitInv { s with sched := c } := by
  obtain ⟨hbase, hm⟩ := h.base.permitted hp hs
  have hlink : ∀ n, c = linkTask s.sched n → WaitInv { s with sched := c } := by
    rintro n rfl
    exact h.of_sleeps hbase hm.effect (linkTask_sleeps n h.base.sched.current_lt)
      (fun _ _ _ _ _ hs => by cases hs) fun hne => absurd rfl hne
  cases e with
  | createTask d st fds | createUserTask d st esp tty fds => cases hs; exact hlink _ rfl
  | fork d esp fds =>
    cases hs
    unfold forkCurrent at hlink ⊢
    split_ifs at hlink ⊢
    · exact h
    · exact hlink _ rfl
  | tick r =>
    obtain ⟨he, hown⟩ := h.base.sched.tick_effect hs
    exact h.of_sleeps hbase he hown (fun _ _ _ _ _ hs => by cases hs) fun _ => hsafe
  | block o f =>
    obtain ⟨-, hb, -, -⟩ := h.base.sched.block_effect hp.2 hs
    refine h.block hbase hm hsafe hb fun code => ?_
    show s.cont s.sched.currentTask ≠ _
    rw [hp.1]
    simp
  | wake o | exit code | taskExit => exact hp.elim

theorem WaitInv.wake (h : WaitInv s) {o : ℕ} {c : Sched} (hs : schedulerWake s.sched o = some c)
    (hsig : ∀ t < s.sched.count, s.cont t = .waitAsleep o → s.sched.state t = .blocked →
      s.sched.state o = .exited) : WaitInv { s with sched := c } := by
  obtain ⟨hbase, hm⟩ := h.base.wake hs
  obtain ⟨-, hcur, -, hall, -⟩ := wake_effect h.base.sched.ring hs
  refine h.of_sleeps hbase hm.effect (hall _ h.base.sched.current_lt) ?_
    fun hne => absurd hcur hne
  rintro t ht u hk hb ⟨⟩
  exact hsig t ht hk hb

/-- Every safe step keeps the invariant. -/
theorem WaitInv.step (h : WaitInv s) (hsafe : WaitSafe s a) (hs : s.step a = some s') :
    WaitInv s' := by
  have hlt := h.base.sched.current_lt
  obtain ⟨hbase, hm⟩ := h.base.step hs
  have hupdate : ∀ (s' : System) (k : Cont),
      (s'.setCont s.sched.currentTask k).cont s.sched.currentTask = k := fun s' k =>
    Function.update_self ..
  cases System.does hs with
  | sched hp hc => exact h.permitted hp hsafe hc
  | udpServerBind ports => exact ⟨hbase, h.asleep, h.marked, h.codes⟩
  | signal hc =>
    refine h.wake hc fun t ht hk hb => ?_
    have hu := (h.base.slept_for ht hk).1
    exact hsafe t ht hk hb _ hu (h.base.numbered.pids _ hu)
  | waitCheck hk => exact h.setCont hbase (by simp [hk]) (by simp)
  | waitBlock hk hc =>
    obtain ⟨-, hb, -, -⟩ := h.base.sched.block_effect (h.base.current_ne_idle (by simp [hk])) hc
    exact h.block hbase hm hsafe hb fun code => by simp [hupdate]
  | waitFinds => exact h
  | waitReturn hk => exact h.setCont hbase (by simp [hk]) (by simp)
  | @exitMark code =>
    refine h.of_moves hbase hm (fun _ _ _ _ _ hs => by cases hs) (fun _ => ?_) (fun u hk => ?_)
      (fun code' hk => ?_) fun _ => .inr ⟨rfl, code, hupdate ..⟩
    · show (exitedCurrent ..).state _ = _
      rw [exitedCurrent_state, if_pos rfl]
    · cases (hupdate ..).symm.trans hk
    · cases (hupdate ..).symm.trans hk
      exact Function.update_self ..
  | @exitRecord code hk =>
    have hex := h.base.exitMarked hk
    refine h.of_moves hbase hm (fun _ _ _ _ _ hs => by cases hs) (fun _ => ?_) (fun u hk => ?_)
      (fun code' hk => ?_) fun _ => .inl ?_
    · show (s.sched.setTcb _ _).state _ = _
      rw [Sched.setTcb_state, if_pos rfl]
      exact hex
    · cases (hupdate ..).symm.trans hk
    · cases (hupdate ..).symm.trans hk
    · show s.passed _ = some ((s.sched.setTcb _ _).tcb _).exitCode
      rw [Sched.setTcb_tcb_self]
      exact h.marked _ hlt code hk
  | @exitWake c hk hc =>
    have hpid : s.sched.current.pid = s.sched.currentTask := h.base.numbered.pids _ hlt
    have hex := h.base.conts _ hlt
    rw [hk] at hex
    obtain ⟨-, hcur, -, -, -⟩ := wake_effect h.base.sched.ring hc
    have hwoken : WaitInv { s with sched := c } := h.wake hc fun _ _ _ _ => by rwa [hpid]
    rw [← hcur] at hbase ⊢
    refine hwoken.setCont hbase (fun code => ?_) (by simp)
    show s.cont c.currentTask ≠ _
    rw [hcur, hk]
    simp

end

/-! ## Main theorem -/

/-- A result other than `-1` of the check before the sleep is the exit code of
    an exited task. -/
theorem SleepInv.waitPidCheck_some {s : System} (h : SleepInv s) {pid v : ℤ}
    (hc : waitPidCheck s.sched pid = some (some v)) (hv : v ≠ -1) :
    ∃ u < s.sched.count, pid = u ∧ s.sched.state u = .exited ∧ v = (s.sched.tcb u).exitCode := by
  unfold waitPidCheck at hc
  split_ifs at hc
  · cases hc; exact absurd rfl hv
  · obtain ⟨r, hr, hres⟩ := Option.map_eq_some_iff.mp hc
    cases r with
    | none => cases hres; exact absurd rfl hv
    | some t =>
      obtain ⟨ht, hp⟩ := schedulerFindByPid_of_pids h.sched.ring h.numbered.pids hr
      dsimp only at hres
      split_ifs at hres with he
      cases hres
      exact ⟨t, ht, hp, he, rfl⟩

/-- A result other than `-1` after the sleep is the exit code of the task with
    that PID. -/
theorem SleepInv.waitPidResult_some {s : System} (h : SleepInv s) {pid v : ℤ}
    (hc : waitPidResult s.sched pid = some v) (hv : v ≠ -1) :
    ∃ u < s.sched.count, pid = u ∧ v = (s.sched.tcb u).exitCode := by
  unfold waitPidResult at hc
  obtain ⟨r, hr, hres⟩ := Option.map_eq_some_iff.mp hc
  cases r with
  | none => cases hres; exact absurd rfl hv
  | some t =>
    obtain ⟨ht, hp⟩ := schedulerFindByPid_of_pids h.sched.ring h.numbered.pids hr
    exact ⟨t, ht, hp, hres.symm⟩

theorem WaitInv.waitReturn {s s' : System} {pid v : ℤ} (h : WaitInv s)
    (hret : s.step (.waitReturn pid v) = some s') (hv : v ≠ -1) :
    ∃ t < s.sched.count,
      (∀ u < s.sched.count, ((s.sched.tcb u).pid : ℤ) = pid ↔ u = t) ∧
      s.sched.state t = .exited ∧ s.passed t = some v := by
  -- the task with that PID is exited, and not in the middle of its `exit`
  have key : ∃ t < s.sched.count, pid = t ∧ s.sched.state t = .exited ∧
      v = (s.sched.tcb t).exitCode ∧ ∀ code, s.cont s.sched.currentTask ≠ .exitMarked code := by
    cases System.does hret with
    | waitFinds hk hc =>
      obtain ⟨t, ht, hp, he, hcode⟩ := h.base.waitPidCheck_some hc hv
      exact ⟨t, ht, hp, he, hcode, fun code => by rw [hk]; simp⟩
    | waitReturn hk hc =>
      obtain ⟨t, ht, rfl, hcode⟩ := h.base.waitPidResult_some hc hv
      exact ⟨t, ht, rfl, h.waited hk, hcode, fun code => by rw [hk]; simp⟩
  obtain ⟨t, ht, rfl, he, rfl, hnot⟩ := key
  refine ⟨t, ht, fun u hu => ?_, he, h.code hnot ht he⟩
  rw [h.base.numbered.pids u hu]
  exact Int.natCast_inj

/-- **`waitpid` reports only real exits.** In every run from boot whose steps are all safe,
    with no fork that copies a control block, when `scheduler_wait_pid(pid)` returns a value
    other than `-1`, exactly one task has that PID, it is `TASK_EXITED`, and the value is the
    code it passed to `exit`. -/
theorem waitpid_reports_real_exits {kernelDir : ℕ} {fds : FdTable} {c c' : Spaces System}
    {es : List (SpaceEvent Action)} {pid v : ℤ} {copied : List ℕ}
    (hrun : Run (UndisturbedStep inSystem WaitSafe) (.start (boot kernelDir fds)) es c)
    (hret : c.step inSystem (.run (.waitReturn pid v) copied) = some c') (hv : v ≠ -1) :
    ∃ t < c.sys.sched.count,
      (∀ u < c.sys.sched.count, ((c.sys.sched.tcb u).pid : ℤ) = pid ↔ u = t) ∧
      c.sys.sched.state t = .exited ∧ c.sys.passed t = some v := by
  obtain ⟨s, rfl, hreach⟩ := run_of_undisturbed hrun
  have h : WaitInv s := hreach.invariant (WaitInv.init kernelDir fds) fun _ _ _ hu hs =>
    hu.step hs.1 hs.2
  rw [Spaces.step_start fun hne => absurd rfl hne, Option.map_eq_some_iff] at hret
  obtain ⟨s', hs', -⟩ := hret
  exact h.waitReturn hs' hv

/-- Task 2 waits for task 1, which exits with code 7. -/
def exitRun : List Action :=
  [.sched (.createTask 0 4096 fun _ => -1), .sched (.createTask 0 4096 fun _ => -1),
    .sched (.tick 0), .waitCheck 1, .waitBlock 0, .exitMark 7, .exitRecord, .exitWake,
    .sched (.tick 0), .sched (.tick 0)]

theorem waitpid_reports_real_exits_code_seven :
    ∃ c c', Run (UndisturbedStep inSystem WaitSafe) (.start (boot 0 fun _ => -1))
        (exitRun.map (.run · [])) c ∧
      c.step inSystem (.run (.waitReturn 1 7) []) = some c' ∧
      ∃ t < c.sys.sched.count, c.sys.sched.state t = .exited ∧ c.sys.passed t = some 7 := by
  obtain ⟨s, hs, hret⟩ : ∃ s, Run (restrict (Steps System.step) WaitSafe) (boot 0 fun _ => -1)
      exitRun s ∧ (s.step (.waitReturn 1 7)).isSome :=
    exists_run_restrict (by decide +kernel)
  obtain ⟨s', hret⟩ := Option.isSome_iff_exists.mp hret
  have hrun := undisturbed_of_run (K := inSystem) hs
  have hstep : (Spaces.start s).step inSystem (.run (.waitReturn 1 7) []) = some (.start s') :=
    Spaces.step_start_of_step hret
  obtain ⟨t, ht, -, he, hp⟩ := waitpid_reports_real_exits hrun hstep (by decide)
  exact ⟨_, _, hrun, hstep, t, ht, he, hp⟩

/-- Task 2 binds a server to UDP port 1 and waits for task 1; a datagram for
    that port arrives. -/
def datagramRun : List (SpaceEvent Action) :=
  [.run (.sched (.createTask 0 4096 fun _ => -1)) [],
    .run (.sched (.createTask 0 4096 fun _ => -1)) [], .run (.sched (.tick 0)) [],
    .run (.udpServerBind 1) [], .run (.waitCheck 1) [], .run (.waitBlock 0) [],
    .run (.signal (.udp 1)) [], .run (.sched (.tick 0)) [], .run (.sched (.tick 0)) []]

/-- Task 1 forks, with its control block on a page that is copied, and waits for the child. -/
def copiedRun : List (SpaceEvent Action) :=
  [.run (.sched (.createUserTask 0x30000 0x200000 0x20FFC0 0 fun _ => -1)) [],
    .run (.sched (.tick 0)) [], .run (.sched (.fork 0x40000 0x5F00 fun _ => -1)) [1],
    .run (.waitCheck 2) [], .run (.waitBlock 0) [], .run (.sched (.tick 0)) [],
    .run (.sched (.tick 0)) []]

/-- `waitpid` returns 0 although the task is still ready to run and has passed no code to
    `exit`: after a datagram, and, in a run of safe steps, when a tick in the child finds its
    copy of the parent's control block to be `TASK_RUNNING`. -/
theorem waitpid_returns_before_exit :
    (∃ c c', Run (UndisturbedStep inSystem fun _ _ => True) (.start (boot 0 fun _ => -1))
        datagramRun c ∧ c.step inSystem (.run (.waitReturn 1 0) []) = some c' ∧
      (c.sys.sched.tcb 1).pid = 1 ∧ c.sys.sched.state 1 = .ready ∧ c.sys.passed 1 = none) ∧
    ∃ c c', Run (restrict (Steps (Spaces.step inSystem)) (Accepted WaitSafe))
        (.start (boot 0 fun _ => -1)) copiedRun c ∧
      c.step inSystem (.run (.waitReturn 2 0) []) = some c' ∧
      (c.sys.sched.tcb 2).pid = 2 ∧ c.sys.sched.state 2 = .ready ∧ c.sys.passed 2 = none := by
  constructor
  · obtain ⟨c, hc, hret, hrest⟩ : ∃ c, Run (UndisturbedStep inSystem fun _ _ => True)
        (.start (boot 0 fun _ => -1)) datagramRun c ∧
        (c.step inSystem (.run (.waitReturn 1 0) [])).isSome ∧ (c.sys.sched.tcb 1).pid = 1 ∧
        c.sys.sched.state 1 = .ready ∧ c.sys.passed 1 = none :=
      exists_run_restrict (by decide +kernel)
    obtain ⟨c', hret⟩ := Option.isSome_iff_exists.mp hret
    exact ⟨c, c', hc, hret, hrest⟩
  · obtain ⟨c, hc, hret, hrest⟩ : ∃ c, Run (restrict (Steps (Spaces.step inSystem))
        (Accepted WaitSafe)) (.start (boot 0 fun _ => -1)) copiedRun c ∧
        (c.step inSystem (.run (.waitReturn 2 0) [])).isSome ∧ (c.sys.sched.tcb 2).pid = 2 ∧
        c.sys.sched.state 2 = .ready ∧ c.sys.passed 2 = none :=
      exists_run_restrict (by decide +kernel)
    obtain ⟨c', hret⟩ := Option.isSome_iff_exists.mp hret
    exact ⟨c, c', hc, hret, hrest⟩

end Mboot.Scheduler
