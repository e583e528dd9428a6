import Mboot.Scheduler.Invariant

/-!
# Control blocks in several address spaces

The scheduler reads and stores control blocks through the page directory in `CR3`.
Kernel memory has one copy, at the same address in every directory, with two exceptions:

* `paging_clone_directory` (`stage2/paging.c`, lines 107–135) copies every page marked
  `PAGE_USER` in the caller's directory. `create_user_task_from_segments` marks the pages of
  the stack, and the control block is allocated right in front of it, on the page on which
  the stack begins. So the directory of a forked child has its own copy of the parent's
  control block, as it was at the fork.
* The pages of an image hide what the kernel has at their addresses.

`Spaces` adds the private blocks of the directories to a system around the scheduler
(`Around`).

* `run_of_undisturbed`: as long as no fork copies a control block and no image hides one,
  the system runs as if there were no directories.
* `only_runnable_tasks_run`: only runnable tasks get the CPU in such runs.
* `stale_copy_resumes_sleeper`: a tick in a forked child gives the CPU to the sleeping
  parent.
-/

namespace Mboot.Scheduler

open Common

variable {σ α : Type*}

/-! ## The directories -/

/-- A system with the scheduler in it. -/
structure Around (σ α : Type*) where
  sched : σ → Sched
  put : σ → Sched → σ
  step : σ → α → Option σ
  /-- the entry point of the scheduler that an action is a call of -/
  event : α → Option Event
  put_sched : ∀ s, put s (sched s) = s

/-- The directory that an action makes with `paging_clone_directory`: the idle task cannot
    fork. -/
def Around.cloned (K : Around σ α) (s : σ) (a : α) : Option ℕ :=
  match K.event a with
  | some (.fork dir _ _) =>
    if (K.sched s).currentTask = (K.sched s).idleTask then none else some dir
  | _ => none

/-- A system and the blocks that are private to a directory: `own dir t` is what `dir` shows
    in place of block `t`. -/
structure Spaces (σ : Type*) where
  sys : σ
  own : ℕ → ℕ → Option Tcb

/-- No directory has blocks of its own. -/
def Spaces.start (s : σ) : Spaces σ := ⟨s, fun _ _ => none⟩

@[simp] theorem Spaces.start_sys (s : σ) : (Spaces.start s).sys = s := rfl

/-- An action of the system, with the blocks, allocated or not, that lie on a page a fork
    copies, or an image mapped over block `t` in `dir`. -/
inductive SpaceEvent (α : Type*)
  | run (a : α) (copied : List ℕ)
  | hide (dir t : ℕ) (b : Tcb)

/-- The blocks as a directory with the private blocks `mine` shows them. -/
def seen (mine : ℕ → Option Tcb) (s : Sched) : Sched :=
  { s with tcb := fun t => (mine t).getD (s.tcb t) }

/-- One step. The action sees the blocks of the directory in `CR3` and stores to them;
    `scheduler_schedule` changes `CR3` last. A fork copies what its caller sees. -/
def Spaces.step (K : Around σ α) (c : Spaces σ) : SpaceEvent α → Option (Spaces σ)
  | .run a copied =>
    let s := K.sched c.sys
    let mine := c.own s.cr3
    let before := K.put c.sys (seen mine s)
    (K.step before a).map fun after =>
      let s' := K.sched after
      let own := Function.update c.own s.cr3 fun t => (mine t).map fun _ => s'.tcb t
      { sys := K.put after
          { s' with tcb := fun t => if (mine t).isSome then s.tcb t else s'.tcb t }
        own := match K.cloned before a with
          | some dir => Function.update own dir fun t =>
              if t ∈ copied then some ((K.sched before).tcb t) else none
          | none => own }
  | .hide dir t b =>
    some { c with own := Function.update c.own dir (Function.update (c.own dir) t (some b)) }

/-- An action that `ok` accepts, and that copies no control block if it is a fork; no image
    hides one. -/
def Undisturbed (K : Around σ α) (ok : σ → α → Prop) (c : Spaces σ) : SpaceEvent α → Prop
  | .run a copied => (K.cloned c.sys a ≠ none → copied = []) ∧ ok c.sys a
  | .hide _ _ _ => False

/-- The same without the condition on forks. -/
def Accepted (ok : σ → α → Prop) (c : Spaces σ) : SpaceEvent α → Prop
  | .run a _ => ok c.sys a
  | .hide _ _ _ => False

/-- The undisturbed steps of the system. -/
abbrev UndisturbedStep (K : Around σ α) (ok : σ → α → Prop) :
    Spaces σ → SpaceEvent α → Spaces σ → Prop :=
  restrict (Steps (Spaces.step K)) (Undisturbed K ok)

instance (K : Around σ α) (ok : σ → α → Prop) [∀ s, DecidablePred (ok s)] (c : Spaces σ) :
    DecidablePred (Undisturbed K ok c)
  | .run _ _ => inferInstanceAs (Decidable ((_ → _) ∧ _))
  | .hide _ _ _ => inferInstanceAs (Decidable False)

instance (ok : σ → α → Prop) [∀ s, DecidablePred (ok s)] (c : Spaces σ) :
    DecidablePred (Accepted ok c)
  | .run _ _ => inferInstanceAs (Decidable (ok _ _))
  | .hide _ _ _ => inferInstanceAs (Decidable False)

section

variable {K : Around σ α} {ok : σ → α → Prop} {s s' : σ} {a : α} {copied : List ℕ}

theorem Spaces.step_start (h : K.cloned s a ≠ none → copied = []) :
    (Spaces.start s).step K (.run a copied) = (K.step s a).map Spaces.start := by
  have hbefore : K.put s (seen (fun _ => none) (K.sched s)) = s := K.put_sched s
  simp only [Spaces.step, Spaces.start, hbefore]
  refine congrArg (Option.map · (K.step s a)) (funext fun after => ?_)
  congr 1
  · exact K.put_sched after
  · cases hclone : K.cloned s a with
    | none => simp
    | some dir => simp [h (by simp [hclone])]

theorem Spaces.step_start_of_step (h : K.step s a = some s') :
    (Spaces.start s).step K (.run a []) = some (.start s') := by
  rw [Spaces.step_start fun _ => rfl, h]
  rfl

/-- Along undisturbed steps no directory gets a block of its own, and the system takes its
    own steps. -/
theorem run_of_undisturbed {es : List (SpaceEvent α)} {c : Spaces σ}
    (h : Run (UndisturbedStep K ok) (Spaces.start s) es c) :
    ∃ s', c = Spaces.start s' ∧ Reachable (restrict (Steps K.step) ok) s s' := by
  refine h.invariant (P := fun c => ∃ s', c = Spaces.start s' ∧
    Reachable (restrict (Steps K.step) ok) s s') ⟨s, rfl, .refl s⟩ ?_
  rintro _ e v ⟨s', rfl, hreach⟩ ⟨hok, hstep⟩
  cases e with
  | run a copied =>
    obtain ⟨hcopied, hok⟩ := hok
    rw [Steps, Spaces.step_start (s := s') hcopied, Option.map_eq_some_iff] at hstep
    obtain ⟨s'', hs'', rfl⟩ := hstep
    exact ⟨s'', rfl, hreach.snoc ⟨hok, hs''⟩⟩
  | hide dir t b => exact hok.elim

/-- Every run of the system is a run with directories in which no fork copies a block. -/
theorem undisturbed_of_run {as : List α} (h : Run (restrict (Steps K.step) ok) s as s') :
    Run (UndisturbedStep K ok) (Spaces.start s) (as.map (.run · [])) (Spaces.start s') := by
  induction h with
  | nil => exact .nil _
  | snoc _ hs ih =>
    rw [List.map_append]
    exact ih.snoc ⟨⟨fun _ => rfl, hs.1⟩, Spaces.step_start_of_step hs.2⟩

end

/-! ## Only runnable tasks get the CPU -/

/-- The scheduler alone. -/
def alone : Around Sched Event where
  sched := id
  put := fun _ s => s
  step := step
  event := some
  put_sched := fun _ => rfl

/-- **Only runnable tasks get the CPU**, unless a fork has copied a control block. In every
    state reachable from `scheduler_init` by undisturbed steps:
    the `next` pointers form one ring through the idle task with every created
    task on it exactly once; a `TASK_RUNNING` task is the current one; the idle
    task is neither blocked nor exited; a timer tick, and a block by a non-idle
    task, return and make current a task that was (and is) `TASK_READY` or
    `TASK_RUNNING`; and a blocked task is not current, nor becomes so in any
    undisturbed continuation without a signal on its wait object. -/
theorem only_runnable_tasks_run {kernelDir : ℕ} {fds : FdTable} {c : Spaces Sched}
    (h : Reachable (UndisturbedStep alone Allowed) (.start (schedulerInit kernelDir fds)) c) :
    RingOk c.sys ∧
    (∀ t < c.sys.count, c.sys.state t = .running → t = c.sys.currentTask) ∧
    c.sys.state c.sys.idleTask ≠ .blocked ∧ c.sys.state c.sys.idleTask ≠ .exited ∧
    (∀ r copied, ∃ c',
      c.step alone (.run (.tick r) copied) = some c' ∧ SelectsRunnable c.sys c'.sys) ∧
    (c.sys.currentTask ≠ c.sys.idleTask → ∀ o f copied, ∃ c',
      c.step alone (.run (.block o f) copied) = some c' ∧ SelectsRunnable c.sys c'.sys) ∧
    (∀ t < c.sys.count, c.sys.state t = .blocked → ∀ es c',
      Run (UndisturbedStep alone fun u e =>
        Allowed u e ∧ signals u e ≠ some (c.sys.tcb t).waitObj) c es c' →
      c'.sys.state t = .blocked ∧ c'.sys.currentTask ≠ t) := by
  obtain ⟨_, hrun⟩ := h
  obtain ⟨s, rfl, hreach⟩ := run_of_undisturbed hrun
  have hinv : SchedInv s := schedInv_of_reachable hreach
  -- A scheduler call that returns does so through the blocks all directories share.
  have hcall : ∀ e copied, alone.cloned s e = none →
      (∃ s', Scheduler.step s e = some s' ∧ SelectsRunnable s s') →
      ∃ c', (Spaces.start s).step alone (.run e copied) = some c' ∧
        SelectsRunnable s c'.sys := by
    rintro e copied hclone ⟨s', hs', hsel⟩
    refine ⟨.start s', ?_, hsel⟩
    rw [Spaces.step_start fun h => absurd hclone h, show alone.step s e = some s' from hs']
    rfl
  have hidle : s.state s.idleTask ≠ .blocked ∧ s.state s.idleTask ≠ .exited := by
    rcases hinv.idle with hr | hr <;> rw [hr] <;> decide
  refine ⟨hinv.ring, hinv.running, hidle.1, hidle.2,
    fun r copied => hcall _ copied rfl (hinv.tick_selects r),
    fun hi o f copied => hcall _ copied rfl (hinv.block_selects hi o f), ?_⟩
  intro t ht hb es c' hr
  obtain ⟨s', rfl, as, hreach'⟩ := run_of_undisturbed hr
  obtain ⟨hinv', -, hb', -⟩ :=
    hinv.blocked_run (hreach'.mono fun _ _ _ hs => ⟨hs.1.2, hs.1.1, hs.2⟩) ht hb rfl
  refine ⟨hb', ?_⟩
  rintro rfl
  exact hinv'.current_awake hb'

/-- The first user task of the machine forks and goes to sleep, and its child runs; `copied`
    is what the fork copies. -/
def forkRun (copied : List ℕ) : List (SpaceEvent Event) :=
  [.run (.createUserTask 0x30000 0x200000 0x20FFC0 0 fun _ => -1) [], .run (.tick 0x8F00) [],
    .run (.fork 0x40000 0x5F00 fun _ => -1) copied, .run (.block 0x10400 0x20FE00) [],
    .run (.tick 0x8F00) []]

/-- As long as the fork copies nothing, the parent sleeps until it is woken. -/
theorem only_runnable_tasks_run_fork :
    ∃ c, Run (UndisturbedStep alone Allowed) (.start (schedulerInit 0x20000 fun _ => -1))
        (forkRun []) c ∧ c.sys.currentTask = 2 ∧ c.sys.state 1 = .blocked ∧
      ∀ es c', Run (UndisturbedStep alone fun u e => Allowed u e ∧ signals u e ≠ some 0x10400)
        c es c' → c'.sys.state 1 = .blocked ∧ c'.sys.currentTask ≠ 1 := by
  have hrun : Run (UndisturbedStep alone Allowed) (.start (schedulerInit 0x20000 fun _ => -1))
      (forkRun []) _ := run_restrict_of_foldlM rfl
  exact ⟨_, hrun, rfl, rfl, (only_runnable_tasks_run ⟨_, hrun⟩).2.2.2.2.2.2 1 (by decide) rfl⟩

/-- **A stale copy gives the CPU to a sleeping task.** The fork copies the parent's control
    block, which says `TASK_RUNNING`. The parent goes to sleep; a tick while its child runs
    sees the copy and makes the parent the current task, although nothing has woken it. -/
theorem stale_copy_resumes_sleeper :
    ∃ c c', Run (restrict (Steps (Spaces.step alone)) (Accepted Allowed))
        (.start (schedulerInit 0x20000 fun _ => -1)) (forkRun [1]) c ∧
      c.sys.currentTask = 2 ∧ c.sys.state 1 = .blocked ∧
      c.step alone (.run (.tick 0x5E00) []) = some c' ∧
      c'.sys.currentTask = 1 ∧ c'.sys.state 1 = .blocked ∧ ¬ SelectsRunnable c.sys c'.sys := by
  obtain ⟨c, hc, hcur, hstate, htick⟩ : ∃ c,
      Run (restrict (Steps (Spaces.step alone)) (Accepted Allowed))
        (.start (schedulerInit 0x20000 fun _ => -1)) (forkRun [1]) c ∧
      c.sys.currentTask = 2 ∧ c.sys.state 1 = .blocked ∧
      (c.step alone (.run (.tick 0x5E00) [])).any fun c' =>
        c'.sys.currentTask = 1 ∧ c'.sys.state 1 = .blocked :=
    exists_run_restrict (by decide +kernel)
  obtain ⟨c', hc', hnext⟩ := (Option.any_eq_true ..).mp htick
  obtain ⟨hcur', hstate'⟩ := of_decide_eq_true hnext
  refine ⟨c, c', hc, hcur, hstate, hc', hcur', hstate', fun h => ?_⟩
  have hrunnable := h.1
  rw [hcur', hstate] at hrunnable
  exact absurd hrunnable (by decide)

end Mboot.Scheduler
