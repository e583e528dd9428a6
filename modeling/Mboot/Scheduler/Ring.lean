import Mboot.Scheduler.Model

/-!
# The scheduler's loops on a well-formed ring

When the `next` pointers of the allocated blocks form one ring through the
idle task (`RingOk`), the three loops of `stage2/scheduler.c` end, and their
results have closed forms:

* `findRunnable_spec`, `schedulerSchedule_spec`: the walk of
  `scheduler_schedule` finds another runnable task, or shows that there is none.
* `schedulerWake_eq`: `scheduler_wake` makes ready exactly the tasks blocked on
  the object.
* `schedulerFindByPid_spec`: `scheduler_find_by_pid` finds a block with the PID
  if there is one.
-/

namespace Mboot.Scheduler

open Common

/-- Every allocated block is on the ring of `next` pointers that starts at the
    idle task, exactly once, and nothing else is. -/
def RingOk (s : Sched) : Prop :=
  ∃ l, IsRing s.next (s.idleTask :: l) ∧ (s.idleTask :: l).Perm (List.range s.count)

/-- `TASK_READY` or `TASK_RUNNING`. -/
def Runnable (st : TaskState) : Prop := st = .ready ∨ st = .running

instance : DecidablePred Runnable := fun _ => inferInstanceAs (Decidable (_ ∨ _))

theorem RingOk.idle_lt {s : Sched} (h : RingOk s) : s.idleTask < s.count := by
  obtain ⟨l, -, hp⟩ := h
  have := hp.subset (List.mem_cons_self (a := s.idleTask) (l := l))
  simpa using this

/-- The ring read from any allocated block. -/
theorem RingOk.from {s : Sched} (h : RingOk s) {t : ℕ} (ht : t < s.count) :
    ∃ l, IsRing s.next (t :: l) ∧ (t :: l).Perm (List.range s.count) := by
  obtain ⟨l, hr, hp⟩ := h
  obtain ⟨l', hr', hp'⟩ := hr.rotate (hp.symm.subset (List.mem_range.mpr ht))
  exact ⟨l', hr', hp'.trans hp⟩

/-- Changing blocks without touching their `next` pointers keeps the ring. -/
theorem RingOk.of_next_eq {s s' : Sched} (h : RingOk s) (hi : s'.idleTask = s.idleTask)
    (hc : s'.count = s.count) (hn : s'.next = s.next) : RingOk s' := by
  unfold RingOk
  rw [hi, hc, hn]
  exact h

theorem length_of_perm_range {t n : ℕ} {l : List ℕ} (h : (t :: l).Perm (List.range n)) :
    l.length + 1 = n := by
  simpa using h.length_eq

/-! ## `scheduler_schedule` -/

/-- The walk from `t` along `l` to the current task returns the first runnable
    task of `l`, or the current task. -/
theorem findRunnable_path {s : Sched} {t : ℕ} {l : List ℕ} {fuel : ℕ}
    (hp : Follows s.next t l s.currentTask) (hc : s.currentTask ∉ l) (hf : l.length < fuel) :
    findRunnable s fuel t =
      some ((l.find? fun u => Runnable (s.state u)).getD s.currentTask) := by
  induction l generalizing t fuel with
  | nil =>
    obtain ⟨fuel, rfl⟩ := Nat.exists_eq_add_one.mpr (Nat.zero_lt_of_lt hf)
    simp only [Follows] at hp
    simp [findRunnable, hp]
  | cons a l ih =>
    obtain ⟨fuel, rfl⟩ := Nat.exists_eq_add_one.mpr (Nat.zero_lt_of_lt hf)
    obtain ⟨ha, hp⟩ := hp
    have hac : a ≠ s.currentTask := fun e => hc (by simp [e])
    rw [findRunnable]
    simp only [ha, List.find?_cons]
    by_cases hr : Runnable (s.state a)
    · have : ¬ (s.state a ≠ .ready ∧ s.state a ≠ .running) := by
        unfold Runnable at hr; tauto
      simp [hr, this]
    · have hne : s.state a ≠ .ready ∧ s.state a ≠ .running := by
        unfold Runnable at hr; tauto
      rw [if_pos ⟨hac, hne⟩]
      simp only [hr, decide_false]
      exact ih hp (fun h => hc (List.mem_cons_of_mem _ h)) (by simpa using hf)

/-- The task `scheduler_schedule` finds: a runnable task other than the current
    one, or the current one when no other task is runnable. -/
theorem findRunnable_spec {s : Sched} (h : RingOk s) (hc : s.currentTask < s.count) :
    ∃ u, findRunnable s s.count s.currentTask = some u ∧ u < s.count ∧
      ((u ≠ s.currentTask ∧ Runnable (s.state u)) ∨
       (u = s.currentTask ∧ ∀ v < s.count, v ≠ s.currentTask → ¬ Runnable (s.state v))) := by
  obtain ⟨l, ⟨hp, hn⟩, hperm⟩ := h.from hc
  have hcl : s.currentTask ∉ l := (List.nodup_cons.mp hn).1
  have hlen := length_of_perm_range hperm
  refine ⟨_, findRunnable_path hp hcl (by omega), ?_⟩
  cases hfind : l.find? fun u => Runnable (s.state u) with
  | none =>
    refine ⟨hc, Or.inr ⟨rfl, fun v hv hvc => ?_⟩⟩
    have hmem : v ∈ s.currentTask :: l := hperm.symm.subset (List.mem_range.mpr hv)
    rcases List.mem_cons.mp hmem with e | hmem
    · exact absurd e hvc
    · simpa using List.find?_eq_none.mp hfind v hmem
  | some u =>
    have hul : u ∈ l := List.mem_of_find?_eq_some hfind
    have hu : u < s.count :=
      List.mem_range.mp (hperm.subset (List.mem_cons_of_mem _ hul))
    have hr : Runnable (s.state u) := by simpa using List.find?_some hfind
    refine ⟨hu, Or.inl ⟨?_, hr⟩⟩
    simp only [Option.getD_some]
    rintro rfl
    exact hcl hul

/-! ## `switchTo` -/

@[simp] theorem switchTo_count (s : Sched) (u : ℕ) : (switchTo s u).count = s.count := by
  unfold switchTo; simp only; split_ifs <;> rfl

@[simp] theorem switchTo_idleTask (s : Sched) (u : ℕ) :
    (switchTo s u).idleTask = s.idleTask := by
  unfold switchTo; simp only; split_ifs <;> rfl

@[simp] theorem switchTo_nextPid (s : Sched) (u : ℕ) : (switchTo s u).nextPid = s.nextPid := by
  unfold switchTo; simp only; split_ifs <;> rfl

@[simp] theorem switchTo_currentTask (s : Sched) (u : ℕ) : (switchTo s u).currentTask = u := by
  unfold switchTo
  simp only
  split_ifs with h1 <;> simp_all [Sched.setState]

/-- Switching changes the state of the chosen task only, and nothing else in
    any block. -/
theorem switchTo_tcb (s : Sched) (u t : ℕ) :
    (switchTo s u).tcb t =
      if t = u ∧ (u ≠ s.currentTask ∨ s.state u = .blocked) then
        { s.tcb t with state := .running }
      else s.tcb t := by
  have key : ∀ s' : Sched, (if s'.current.cr3 ≠ s'.cr3 then { s' with cr3 := s'.current.cr3 }
      else s').tcb = s'.tcb := by
    intro s'; split_ifs <;> rfl
  unfold switchTo
  simp only
  rw [key]
  by_cases h1 : u = s.currentTask
  · subst h1
    rw [if_neg (by simp)]
    have hcur : s.state s.currentTask = s.current.state := rfl
    by_cases h2 : s.current.state = .blocked
    · rw [if_pos h2]
      by_cases ht : t = s.currentTask
      · subst ht; simp [Sched.setState, hcur, h2]
      · simp [Sched.setState, Sched.setTcb_tcb_of_ne _ _ ht, ht]
    · rw [if_neg h2]
      simp [hcur, h2]
  · rw [if_pos h1]
    by_cases ht : t = u
    · subst ht; simp [Sched.setState, h1]
    · simp [Sched.setState, Sched.setTcb_tcb_of_ne _ _ ht, ht]

theorem switchTo_next (s : Sched) (u : ℕ) : (switchTo s u).next = s.next := by
  funext t
  simp only [Sched.next, switchTo_tcb]
  split_ifs <;> rfl

/-- `scheduler_schedule` returns, and either switches to a runnable task other
    than the current one, or stays because there is none. -/
theorem schedulerSchedule_spec {s : Sched} (h : RingOk s) (hc : s.currentTask < s.count) :
    ∃ u, schedulerSchedule s = some (switchTo s u) ∧ u < s.count ∧
      ((u ≠ s.currentTask ∧ Runnable (s.state u)) ∨
       (u = s.currentTask ∧ ∀ v < s.count, v ≠ s.currentTask → ¬ Runnable (s.state v))) := by
  obtain ⟨u, hu, hlt, hcase⟩ := findRunnable_spec h hc
  exact ⟨u, by simp [schedulerSchedule, hu], hlt, hcase⟩

/-! ## `scheduler_wake` -/

/-- The effect of waking `waitObj` on one block. -/
def wakeTcb (waitObj : ℕ) (b : Tcb) : Tcb :=
  if b.state = .blocked ∧ b.waitObj = waitObj then { b with state := .ready } else b

/-- Every allocated task blocked on `waitObj` made ready. -/
def wakeAll (s : Sched) (waitObj : ℕ) : Sched :=
  { s with tcb := fun t => if t < s.count then wakeTcb waitObj (s.tcb t) else s.tcb t }

@[simp] theorem wakeTcb_next (o : ℕ) (b : Tcb) : (wakeTcb o b).next = b.next := by
  unfold wakeTcb; split_ifs <;> rfl

@[simp] theorem wakeTcb_waitObj (o : ℕ) (b : Tcb) : (wakeTcb o b).waitObj = b.waitObj := by
  unfold wakeTcb; split_ifs <;> rfl

theorem wakeTask_eq (s : Sched) (o t : ℕ) :
    wakeTask s o t = s.setTcb t (wakeTcb o (s.tcb t)) := by
  unfold wakeTask wakeTcb Sched.state
  split_ifs with h
  · rfl
  · simp [Sched.setTcb]

@[simp] theorem wakeTask_next (s : Sched) (o t : ℕ) : (wakeTask s o t).next = s.next := by
  rw [wakeTask_eq]
  exact Sched.setTcb_next (wakeTcb_next o _)

/-- The loop of `scheduler_wake` started at `t` handles `t` and then every
    task on the way back to the idle task. -/
theorem wakeLoop_path {o : ℕ} {l : List ℕ} {s : Sched} {t fuel : ℕ}
    (hp : Follows s.next t l s.idleTask) (hi : s.idleTask ∉ l) (hn : (t :: l).Nodup)
    (hf : l.length < fuel) :
    wakeLoop o fuel s t = some { s with
      tcb := fun u => if u ∈ t :: l then wakeTcb o (s.tcb u) else s.tcb u } := by
  induction l generalizing s t fuel with
  | nil =>
    obtain ⟨fuel, rfl⟩ := Nat.exists_eq_add_one.mpr (Nat.zero_lt_of_lt hf)
    simp only [Follows] at hp
    have hidle : (wakeTask s o t).idleTask = s.idleTask := by rw [wakeTask_eq]; rfl
    simp only [wakeLoop, wakeTask_next, hp, hidle]
    rw [if_neg (by simp), wakeTask_eq]
    simp only [Sched.setTcb, Option.some.injEq, Sched.mk.injEq, and_self, and_true]
    funext u
    by_cases h : u = t
    · subst h; simp
    · simp [h]
  | cons a l ih =>
    obtain ⟨fuel, rfl⟩ := Nat.exists_eq_add_one.mpr (Nat.zero_lt_of_lt hf)
    obtain ⟨ha, hp⟩ := hp
    have hai : a ≠ s.idleTask := fun e => hi (by simp [e])
    have hidle : (wakeTask s o t).idleTask = s.idleTask := by rw [wakeTask_eq]; rfl
    have htl : t ∉ a :: l := (List.nodup_cons.mp hn).1
    simp only [wakeLoop, wakeTask_next, ha, hidle]
    rw [if_pos hai, ih (by rw [wakeTask_next, hidle]; exact hp)
      (by rw [hidle]; exact fun h => hi (List.mem_cons_of_mem _ h)) (List.nodup_cons.mp hn).2
      (by simpa using hf), wakeTask_eq]
    simp only [Sched.setTcb, Option.some.injEq, Sched.mk.injEq, and_self, and_true]
    funext u
    by_cases h : u = t
    · subst h
      simp [htl]
    · rw [Function.update_of_ne h]
      simp [h]

/-- On a well-formed ring `scheduler_wake` makes ready exactly the tasks
    blocked on the (non-null) object. -/
theorem schedulerWake_eq {s : Sched} (h : RingOk s) {o : ℕ} (ho : o ≠ 0) :
    schedulerWake s o = some (wakeAll s o) := by
  obtain ⟨l, ⟨hp, hn⟩, hperm⟩ := h
  have hlen := length_of_perm_range hperm
  unfold schedulerWake
  rw [if_neg ho, wakeLoop_path hp (List.nodup_cons.mp hn).1 hn (by omega)]
  unfold wakeAll
  simp only [hperm.mem_iff, List.mem_range]

theorem schedulerWake_zero (s : Sched) : schedulerWake s 0 = some s := by
  simp [schedulerWake]

/-- What a call of `scheduler_wake` has done. -/
theorem schedulerWake_cases {s c : Sched} (h : RingOk s) {o : ℕ}
    (hs : schedulerWake s o = some c) : o = 0 ∧ c = s ∨ o ≠ 0 ∧ c = wakeAll s o := by
  by_cases ho : o = 0
  · rw [ho, schedulerWake_zero] at hs
    exact .inl ⟨ho, (Option.some.inj hs).symm⟩
  · rw [schedulerWake_eq h ho] at hs
    exact .inr ⟨ho, (Option.some.inj hs).symm⟩

@[simp] theorem wakeAll_next (s : Sched) (o : ℕ) : (wakeAll s o).next = s.next := by
  funext t
  simp only [Sched.next, wakeAll]
  split_ifs <;> simp

/-! ## `scheduler_find_by_pid` -/

theorem findByPidLoop_path {s : Sched} {pid : ℤ} {l : List ℕ} {t fuel : ℕ}
    (hp : Follows s.next t l s.idleTask) (hi : s.idleTask ∉ l) (hf : l.length < fuel) :
    findByPidLoop s pid fuel t =
      some ((t :: l).find? fun u => ((s.tcb u).pid : ℤ) = pid) := by
  induction l generalizing t fuel with
  | nil =>
    obtain ⟨fuel, rfl⟩ := Nat.exists_eq_add_one.mpr (Nat.zero_lt_of_lt hf)
    simp only [Follows] at hp
    simp only [findByPidLoop, hp, List.find?_cons, List.find?_nil]
    split_ifs <;> simp_all
  | cons a l ih =>
    obtain ⟨fuel, rfl⟩ := Nat.exists_eq_add_one.mpr (Nat.zero_lt_of_lt hf)
    obtain ⟨ha, hp⟩ := hp
    have hai : a ≠ s.idleTask := fun e => hi (by simp [e])
    rw [findByPidLoop, ha, List.find?_cons]
    by_cases ht : ((s.tcb t).pid : ℤ) = pid
    · simp [ht]
    · rw [if_neg ht, if_pos hai, ih hp (fun h => hi (List.mem_cons_of_mem _ h)) (by simpa using hf)]
      simp [ht]

/-- `scheduler_find_by_pid` returns, a block it finds has the PID, and a
    `NULL` result for a PID `≥ 0` means that no block has it. -/
theorem schedulerFindByPid_spec {s : Sched} (h : RingOk s) (pid : ℤ) :
    ∃ r, schedulerFindByPid s pid = some r ∧
      (∀ t, r = some t → t < s.count ∧ ((s.tcb t).pid : ℤ) = pid) ∧
      (r = none → ∀ t < s.count, ((s.tcb t).pid : ℤ) ≠ pid) := by
  unfold schedulerFindByPid
  by_cases hneg : pid < 0
  · rw [if_pos hneg]
    refine ⟨none, rfl, by simp, fun _ t _ => ?_⟩
    have : (0 : ℤ) ≤ ((s.tcb t).pid : ℤ) := Int.natCast_nonneg _
    omega
  · obtain ⟨l, ⟨hp, hn⟩, hperm⟩ := h
    have hlen := length_of_perm_range hperm
    rw [if_neg hneg, findByPidLoop_path hp (List.nodup_cons.mp hn).1 (by omega)]
    refine ⟨_, rfl, fun t ht => ⟨?_, by simpa using List.find?_some ht⟩, fun hnone t ht => ?_⟩
    · exact List.mem_range.mp (hperm.subset (List.mem_of_find?_eq_some ht))
    · simpa using List.find?_eq_none.mp hnone t (hperm.symm.subset (List.mem_range.mpr ht))

end Mboot.Scheduler
