import Mboot.Scheduler.Invariant

/-!
# Bounded round robin

A run of `scheduler_schedule` (`stage2/scheduler.c`, lines 433–482), invoked by ticks and by
tasks that block, during which no task is created. Between two invocations the states of the
tasks may change in any way.

Read from a task `t`, the ring lists the tasks in the order in which they get their turns
behind `t`. As long as `t` is runnable, an invocation moves forward in this list or selects
`t`; both results follow from that.

* `bounded_round_robin`: a task that stays runnable is selected within as many invocations as
  there are tasks, and between two of its turns every other task that stays runnable has
  exactly one.
-/

namespace Mboot.Scheduler

open Common

/-! ## Runs -/

/-- What happens between two invocations: states and anything else may change, but not the
    ring and not which task is current. -/
structure SameRing (s s' : Sched) : Prop where
  next : s'.next = s.next
  count : s'.count = s.count
  idleTask : s'.idleTask = s.idleTask
  currentTask : s'.currentTask = s.currentTask

/-- The two ways to `scheduler_schedule`. -/
inductive Invocation (s s' : Sched) : Prop
  | tick (r : ℕ) (h : schedulerTick s r = some s')
  | block (waitObj frame : ℕ) (h : schedulerBlock s waitObj frame = some s')

/-- A run of `N` invocations on a ring: `σ k` is the state after `k` of them, and `μ k` the
    state in which the next one starts. -/
structure Rounds (N : ℕ) (σ μ : ℕ → Sched) : Prop where
  ring : RingOk (σ 0)
  current : (σ 0).currentTask < (σ 0).count
  between : ∀ k < N, SameRing (σ k) (μ k)
  invoked : ∀ k < N, Invocation (μ k) (σ (k + 1))

/-! ## One invocation -/

/-- An invocation selects the first runnable task behind the current one, or stays. The state
    of the current task does not matter. -/
theorem Invocation.selects {s s' : Sched} (h : Invocation s s') {l : List ℕ}
    (hring : IsRing s.next (s.currentTask :: l)) (hlen : l.length < s.count) :
    s'.next = s.next ∧ s'.count = s.count ∧ s'.idleTask = s.idleTask ∧
      s'.currentTask = (l.find? fun u => Runnable (s.state u)).getD s.currentTask := by
  -- both ways change the current task's block, and then schedule
  have hschedule : ∀ m : Sched, m.next = s.next → m.count = s.count → m.idleTask = s.idleTask →
      m.currentTask = s.currentTask → (∀ u ≠ s.currentTask, m.state u = s.state u) →
      schedulerSchedule m = some s' →
      s'.next = s.next ∧ s'.count = s.count ∧ s'.idleTask = s.idleTask ∧
        s'.currentTask = (l.find? fun u => Runnable (s.state u)).getD s.currentTask := by
    intro m hnext hcount hidle hcur hstate hrun
    have hnotin : s.currentTask ∉ l := (List.nodup_cons.mp hring.2).1
    have hfollows : Follows m.next m.currentTask l m.currentTask := by
      rw [hnext, hcur]
      exact hring.1
    have hsame : (l.find? fun u => Runnable (m.state u)) =
        l.find? fun u => Runnable (s.state u) := by
      refine List.find?_congr fun u hu => ?_
      rw [hstate u fun heq => hnotin (heq ▸ hu)]
    have hfind := findRunnable_path hfollows (by rwa [hcur]) (hcount ▸ hlen)
    rw [schedulerSchedule, hfind, Option.map_some, hsame, hcur] at hrun
    obtain rfl := Option.some.inj hrun
    exact ⟨(switchTo_next m _).trans hnext, (switchTo_count m _).trans hcount,
      (switchTo_idleTask m _).trans hidle, switchTo_currentTask m _⟩
  cases h with
  | tick r hrun =>
    refine hschedule (preempt s r) (preempt_next s r) rfl rfl rfl (fun u hu => ?_) hrun
    rw [preempt_state, if_neg (fun h => hu h.1)]
  | block waitObj frame hrun =>
    rw [schedulerBlock_eq] at hrun
    refine hschedule _ (blockCurrent_next s waitObj frame) rfl rfl rfl (fun u hu => ?_) hrun
    rw [blockCurrent_state, if_neg hu]

/-- Read from a runnable task `t`, an invocation moves forward on the ring or selects `t`. -/
theorem Invocation.rank_lt {s s' : Sched} (h : Invocation s s') {t : ℕ} {l : List ℕ}
    (hring : IsRing s.next (t :: l)) (hlen : l.length < s.count) (hcur : s.currentTask ∈ t :: l)
    (ht : Runnable (s.state t)) :
    s'.currentTask = t ∨
      (t :: l).idxOf s.currentTask < (t :: l).idxOf s'.currentTask := by
  have hnodup := hring.2
  have htl : t ∉ l := (List.nodup_cons.mp hnodup).1
  by_cases hct : s.currentTask = t
  · -- the walk starts at `t` itself
    obtain ⟨-, -, -, hsel⟩ := h.selects (l := l) (by rwa [hct]) hlen
    cases hfind : l.find? fun u => Runnable (s.state u) with
    | none =>
      rw [hfind, Option.getD_none, hct] at hsel
      exact .inl hsel
    | some u =>
      rw [hfind, Option.getD_some] at hsel
      have hut : t ≠ u := fun heq => htl (heq ▸ List.mem_of_find?_eq_some hfind)
      right
      rw [hct, hsel, List.idxOf_cons_self, List.idxOf_cons_ne l hut]
      exact Nat.succ_pos _
  · -- the walk meets `t` before it comes to the tasks between `t` and the current one
    have hmem : s.currentTask ∈ l := (List.mem_cons.mp hcur).resolve_left hct
    obtain ⟨l₁, l₂, rfl⟩ := List.append_of_mem hmem
    have hrot := hring.rotate_of_mem
    obtain ⟨-, -, -, hsel⟩ := h.selects hrot (by
      simp only [List.length_append, List.length_cons] at hlen ⊢
      omega)
    rw [List.find?_append, List.find?_cons_of_pos (by simpa using ht)] at hsel
    cases hfind : l₂.find? fun u => Runnable (s.state u) with
    | none =>
      rw [hfind, Option.none_or, Option.getD_some] at hsel
      exact .inl hsel
    | some u =>
      rw [hfind, Option.some_or, Option.getD_some] at hsel
      have hu : u ∈ l₂ := List.mem_of_find?_eq_some hfind
      have hut : t ≠ u := fun heq => htl (heq ▸ by simp [hu])
      obtain ⟨-, hrest, hdisj⟩ := List.nodup_append.mp (List.nodup_cons.mp hnodup).2
      have hul₁ : u ∉ l₁ := fun hmem₁ => hdisj u hmem₁ u (by simp [hu]) rfl
      have hcl₁ : s.currentTask ∉ l₁ := fun hmem₁ => hdisj _ hmem₁ _ List.mem_cons_self rfl
      have huc : s.currentTask ≠ u := fun heq => (List.nodup_cons.mp hrest).1 (heq ▸ hu)
      right
      rw [hsel, List.idxOf_cons_ne _ (Ne.symm hct), List.idxOf_cons_ne _ hut,
        List.idxOf_append_of_notMem hcl₁, List.idxOf_append_of_notMem hul₁, List.idxOf_cons_self,
        List.idxOf_cons_ne _ huc]
      omega

/-! ## Runs of invocations -/

section Rounds

variable {N : ℕ} {σ μ : ℕ → Sched}

/-- The ring stays, and the current task is on it. -/
theorem Rounds.at (h : Rounds N σ μ) {k : ℕ} (hk : k ≤ N) :
    (σ k).next = (σ 0).next ∧ (σ k).count = (σ 0).count ∧ (σ k).idleTask = (σ 0).idleTask ∧
      (σ k).currentTask < (σ 0).count := by
  induction k with
  | zero => exact ⟨rfl, rfl, rfl, h.current⟩
  | succ k ih =>
    obtain ⟨hnext, hcount, hidle, hlt⟩ := ih (by omega)
    have hsame := h.between k (by omega)
    have hring : RingOk (μ k) := h.ring.of_next_eq (hsame.idleTask.trans hidle)
      (hsame.count.trans hcount) (hsame.next.trans hnext)
    have hcur : (μ k).currentTask < (μ k).count := by
      rw [hsame.currentTask, hsame.count, hcount]
      exact hlt
    obtain ⟨l, hl, hperm⟩ := hring.from hcur
    have hlen := length_of_perm_range hperm
    obtain ⟨hnext', hcount', hidle', hsel⟩ := (h.invoked k (by omega)).selects hl (by omega)
    refine ⟨hnext'.trans (hsame.next.trans hnext), hcount'.trans (hsame.count.trans hcount),
      hidle'.trans (hsame.idleTask.trans hidle), ?_⟩
    -- the selected task is on the ring
    have hmem : (σ (k + 1)).currentTask ∈ (μ k).currentTask :: l := by
      rw [hsel]
      cases hfind : l.find? fun u => Runnable ((μ k).state u) with
      | none => exact List.mem_cons_self
      | some u => exact List.mem_cons_of_mem _ (List.mem_of_find?_eq_some hfind)
    have hrange := List.mem_range.mp (hperm.subset hmem)
    rwa [hsame.count, hcount] at hrange

/-- The ring read from `t`, with the rank of the current task rising until `t` is selected. -/
theorem Rounds.rises (h : Rounds N σ μ) {t : ℕ} (ht : t < (σ 0).count) :
    ∃ l : List ℕ, (t :: l).length = (σ 0).count ∧
      (∀ k ≤ N, (t :: l).idxOf (σ k).currentTask < (σ 0).count) ∧
      ∀ k < N, Runnable ((μ k).state t) → (σ (k + 1)).currentTask = t ∨
        (t :: l).idxOf (σ k).currentTask < (t :: l).idxOf (σ (k + 1)).currentTask := by
  obtain ⟨l, hl, hperm⟩ := h.ring.from ht
  have hlen : (t :: l).length = (σ 0).count := by simpa using hperm.length_eq
  have hmem : ∀ k ≤ N, (σ k).currentTask ∈ t :: l := fun k hk =>
    hperm.symm.subset (List.mem_range.mpr (h.at hk).2.2.2)
  refine ⟨l, hlen, fun k hk => ?_, fun k hk hrun => ?_⟩
  · rw [← hlen]
    exact List.idxOf_lt_length_of_mem (hmem k hk)
  · have hsame := h.between k hk
    obtain ⟨hnext, hcount, -⟩ := h.at hk.le
    have hring : IsRing (μ k).next (t :: l) := by
      rw [hsame.next, hnext]
      exact hl
    have hlt : l.length < (μ k).count := by
      rw [hsame.count, hcount, ← hlen, List.length_cons]
      exact Nat.lt_succ_self _
    have hstep := (h.invoked k hk).rank_lt hring hlt (by rw [hsame.currentTask]; exact hmem k hk.le)
      hrun
    rwa [hsame.currentTask] at hstep

/-- Until `u` is selected, a task that had its turn does not get another one. -/
theorem Rounds.not_again (h : Rounds N σ μ) {u i m : ℕ} (hu : u < (σ 0).count) (him : i < m)
    (hm : m ≤ N) (hrun : ∀ k, i ≤ k → k < m → Runnable ((μ k).state u))
    (hnot : ∀ k, i < k → k ≤ m → (σ k).currentTask ≠ u) :
    (σ m).currentTask ≠ (σ i).currentTask := by
  obtain ⟨l, -, -, hrises⟩ := h.rises hu
  exact ne_of_rank_lt (fun k => (σ k).currentTask) (fun c => (u :: l).idxOf c)
    (fun k hk hkm => hrises k (by omega) (hrun k hk hkm)) hnot him

/-- A task that is runnable until it is selected is selected within `count` invocations. -/
theorem Rounds.selected_within (h : Rounds N σ μ) {t i : ℕ} (ht : t < (σ 0).count)
    (hN : i + (σ 0).count ≤ N)
    (hrun : ∀ k, i ≤ k → k < i + (σ 0).count → (∀ j, i < j → j ≤ k → (σ j).currentTask ≠ t) →
      Runnable ((μ k).state t)) :
    ∃ k, i < k ∧ k ≤ i + (σ 0).count ∧ (σ k).currentTask = t := by
  obtain ⟨l, -, hrank, hrises⟩ := h.rises ht
  have hstep : ∀ k < (σ 0).count, (∀ j, 1 ≤ j → j ≤ k → (σ (i + j)).currentTask ≠ t) →
      (σ (i + (k + 1))).currentTask = t ∨
        (t :: l).idxOf (σ (i + k)).currentTask < (t :: l).idxOf (σ (i + (k + 1))).currentTask := by
    intro k hk hnot
    refine hrises (i + k) (by omega) (hrun (i + k) (by omega) (by omega) fun j hij hj => ?_)
    have hne := hnot (j - i) (by omega) (by omega)
    rwa [Nat.add_sub_cancel' hij.le] at hne
  obtain ⟨k, hk1, hkn, hk⟩ := exists_eq_of_rank_lt (fun k => (σ (i + k)).currentTask)
    (fun c => (t :: l).idxOf c) (Nat.zero_lt_of_lt ht) (fun k hk => hrank (i + k) (by omega)) hstep
  exact ⟨i + k, by omega, by omega, hk⟩

/-- Between two consecutive turns of `t`, every other task that stays runnable has one turn. -/
theorem Rounds.one_turn (h : Rounds N σ μ) {t u i j : ℕ} (ht : t < (σ 0).count)
    (hu : u < (σ 0).count) (hut : u ≠ t) (hij : i < j) (hj : j ≤ N) (hi : (σ i).currentTask = t)
    (hjt : (σ j).currentTask = t) (hnot : ∀ k, i < k → k < j → (σ k).currentTask ≠ t)
    (hrunt : ∀ k, i ≤ k → k < j → Runnable ((μ k).state t))
    (hrunu : ∀ k, i ≤ k → k < j → Runnable ((μ k).state u)) :
    ∃! m, i < m ∧ m < j ∧ (σ m).currentTask = u := by
  have honce : ∀ m m', i < m → m < m' → m' < j → (σ m).currentTask = u →
      (σ m').currentTask ≠ u := by
    intro m m' hm hmm' hm' hmu
    rw [← hmu]
    -- `t` has no turn between the two, and was runnable all the time
    exact h.not_again ht hmm' (by omega) (fun k hk hkm => hrunt k (by omega) (by omega))
      fun k hk hkm => hnot k (by omega) (by omega)
  have hsome : ∃ m, i < m ∧ m < j ∧ (σ m).currentTask = u := by
    by_contra hnone
    push Not at hnone
    refine h.not_again hu hij hj hrunu (fun k hk hkj => ?_) (hjt.trans hi.symm)
    rcases hkj.lt_or_eq with hlt | rfl
    · exact hnone k hk hlt
    · rw [hjt]
      exact hut.symm
  obtain ⟨m, him, hmj, hm⟩ := hsome
  refine ⟨m, ⟨him, hmj, hm⟩, ?_⟩
  rintro m' ⟨him', hmj', hm'⟩
  rcases Nat.lt_trichotomy m m' with hlt | rfl | hlt
  · exact absurd hm' (honce m m' him hlt hmj' hm)
  · rfl
  · exact absurd hm (honce m' m him' hlt hmj hm')

end Rounds

/-- The turns of a run of `scheduler_schedule` on a ring of `count` tasks. A task that is
    runnable until it is selected is selected within `count` invocations, from any moment on.
    Between two consecutive turns of a task that stays runnable, every other task that stays
    runnable has exactly one turn. -/
theorem bounded_round_robin {N : ℕ} {σ μ : ℕ → Sched} (h : Rounds N σ μ) :
    (∀ t i, t < (σ 0).count → i + (σ 0).count ≤ N →
      (∀ k, i ≤ k → k < i + (σ 0).count → (∀ j, i < j → j ≤ k → (σ j).currentTask ≠ t) →
        Runnable ((μ k).state t)) →
      ∃ k, i < k ∧ k ≤ i + (σ 0).count ∧ (σ k).currentTask = t) ∧
    ∀ t u i j, t < (σ 0).count → u < (σ 0).count → u ≠ t → i < j → j ≤ N →
      (σ i).currentTask = t → (σ j).currentTask = t →
      (∀ k, i < k → k < j → (σ k).currentTask ≠ t) →
      (∀ k, i ≤ k → k < j → Runnable ((μ k).state t)) →
      (∀ k, i ≤ k → k < j → Runnable ((μ k).state u)) →
      ∃! m, i < m ∧ m < j ∧ (σ m).currentTask = u := by
  constructor
  · intro t i ht hN hrun
    exact h.selected_within ht hN hrun
  · intro t u i j ht hu hut hij hj hi hjt hnot hrunt hrunu
    exact h.one_turn ht hu hut hij hj hi hjt hnot hrunt hrunu

/-- The idle task and one more, ticking. -/
def twoTasks : ℕ → Sched
  | 0 => createTask (schedulerInit 0 fun _ => -1) 0 4096 fun _ => -1
  | k + 1 => (schedulerTick (twoTasks k) 0).getD (twoTasks k)

/-- The idle task has the CPU after two ticks, and the other task after the first. -/
theorem bounded_round_robin_two_tasks :
    Rounds 2 twoTasks twoTasks ∧ (twoTasks 0).currentTask = 0 ∧ (twoTasks 2).currentTask = 0 ∧
      (∃! m, 0 < m ∧ m < 2 ∧ (twoTasks m).currentTask = 1) ∧
      ∃ k, 0 < k ∧ k ≤ 0 + (twoTasks 0).count ∧ (twoTasks k).currentTask = 1 := by
  have hrun : Rounds 2 twoTasks twoTasks := by
    refine ⟨(SchedInv.init 0 _).ring.linkTask _, by decide, fun k _ => ⟨rfl, rfl, rfl, rfl⟩,
      fun k hk => .tick 0 ?_⟩
    interval_cases k <;> rfl
  refine ⟨hrun, rfl, rfl, ?_, ?_⟩
  · refine (bounded_round_robin hrun).2 0 1 0 2 (by decide) (by decide) (by decide) (by decide)
      le_rfl rfl rfl ?_ ?_ ?_
    all_goals
      intro k hk hk2
      interval_cases k <;> decide
  · refine (bounded_round_robin hrun).1 1 0 (by decide) (by decide) fun k _ hk _ => ?_
    have hk2 : k < 2 := hk
    interval_cases k <;> decide

/-! ## Runs of the scheduler -/

/-- The events that link a new task into the ring. -/
def Event.Creates : Event → Prop
  | .createTask .. => True
  | .createUserTask .. => True
  | .fork .. => True
  | _ => False

theorem SameRing.trans {s t u : Sched} (h : SameRing s t) (h' : SameRing t u) : SameRing s u :=
  ⟨h'.next.trans h.next, h'.count.trans h.count, h'.idleTask.trans h.idleTask,
    h'.currentTask.trans h.currentTask⟩

theorem sameRing_schedulerWake {s s' : Sched} (h : RingOk s) {o : ℕ}
    (hw : schedulerWake s o = some s') : SameRing s s' := by
  obtain ⟨-, rfl⟩ | ⟨-, rfl⟩ := schedulerWake_cases h hw
  · exact ⟨rfl, rfl, rfl, rfl⟩
  · exact ⟨wakeAll_next s o, rfl, rfl, rfl⟩

theorem sameRing_markExited {s s' : Sched} (h : RingOk s) {c : ℤ}
    (hm : markExited s c = some s') : SameRing s s' := by
  rw [markExited_eq] at hm
  have hexit : SameRing s (exitedCurrent s c) := ⟨exitedCurrent_next s c, rfl, rfl, rfl⟩
  exact hexit.trans (sameRing_schedulerWake
    (h.of_next_eq hexit.idleTask hexit.count hexit.next) hm)

/-- A step that creates no task invokes `scheduler_schedule` or leaves the ring alone. -/
theorem Step.invocation_or_sameRing {s s' : Sched} {e : Event} (h : RingOk s) (hs : Step s e s')
    (he : ¬e.Creates) : Invocation s s' ∨ SameRing s s' := by
  obtain ⟨hallowed, hstep⟩ := hs
  cases e with
  | createTask | createUserTask | fork => exact absurd trivial he
  | tick r => exact .inl (.tick r hstep)
  | block waitObj frame => exact .inl (.block waitObj frame hstep)
  | wake waitObj => exact .inr (sameRing_schedulerWake h hstep)
  | exit exitCode =>
    have hexit : schedulerExitCurrent s exitCode = some s' := hstep
    rw [schedulerExitCurrent, if_neg hallowed] at hexit
    exact .inr (sameRing_markExited h hexit)
  | taskExit => exact .inr (sameRing_markExited h hstep)

/-- A run can be continued by one more invocation. -/
theorem Rounds.snoc {N : ℕ} {σ μ : ℕ → Sched} (h : Rounds N σ μ) {t u : Sched}
    (hsame : SameRing (σ N) t) (hinv : Invocation t u) :
    Rounds (N + 1) (Function.update σ (N + 1) u) (Function.update μ N t) := by
  have hold : ∀ k ≤ N, Function.update σ (N + 1) u k = σ k := fun k hk =>
    Function.update_of_ne (by omega) _ _
  refine ⟨?_, ?_, fun k hk => ?_, fun k hk => ?_⟩
  · rw [hold 0 (Nat.zero_le N)]
    exact h.ring
  · rw [hold 0 (Nat.zero_le N)]
    exact h.current
  · rw [hold k (by omega)]
    rcases (Nat.lt_succ_iff.mp hk).lt_or_eq with hlt | rfl
    · rw [Function.update_of_ne hlt.ne]
      exact h.between k hlt
    · rw [Function.update_self]
      exact hsame
  · rcases (Nat.lt_succ_iff.mp hk).lt_or_eq with hlt | rfl
    · rw [Function.update_of_ne hlt.ne, hold (k + 1) hlt]
      exact h.invoked k hlt
    · rw [Function.update_self, Function.update_self]
      exact hinv

/-- What the scheduler does between two creations of tasks is such a run. -/
theorem rounds_of_run {s s' : Sched} {es : List Event} (h : SchedInv s)
    (hrun : Run (restrict Step fun _ e => ¬e.Creates) s es s') :
    ∃ N σ μ, Rounds N σ μ ∧ σ 0 = s ∧ SameRing (σ N) s' := by
  induction hrun with
  | nil =>
    exact ⟨0, fun _ => s, fun _ => s, ⟨h.ring, h.current_lt, by simp, by simp⟩, rfl,
      ⟨rfl, rfl, rfl, rfl⟩⟩
  | @snoc t u as a hprev hstep ih =>
    obtain ⟨N, σ, μ, hrounds, h0, hsame⟩ := ih
    have hinv : SchedInv t := hprev.of_restrict.invariant h fun _ _ _ hu hs => hu.step hs
    rcases hstep.2.invocation_or_sameRing hinv.ring hstep.1 with hinvoke | hkeep
    · refine ⟨N + 1, _, _, hrounds.snoc hsame hinvoke, ?_, ?_⟩
      · rw [Function.update_of_ne (by omega)]
        exact h0
      · rw [Function.update_self]
        exact ⟨rfl, rfl, rfl, rfl⟩
    · exact ⟨N, σ, μ, hrounds, h0, hsame.trans hkeep⟩

end Mboot.Scheduler
