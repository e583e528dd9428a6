import Mboot.Common.Exclusion
import Mboot.Disk.Model
import Mboot.Scheduler.Spaces

/-!
# The disk lock

* `disk_lock_correct`: in every interleaving in which no fork copies a control
  block, at most one task is between `disk_lock` and `disk_unlock`, every way out
  of `ata_lba_read` releases the lock the task holds, and nobody sleeps on a free
  lock.
* `unlock_misses_parent`: the wake of a forked child can miss its parent.
* `commands_serialized`: the port writes of different reads are never mixed.

The scheduler's part needs only an intact task list (`Listed`): unlike in
`Mboot.Scheduler.Invariant`, the idle task may block here, as it reads the disk
during boot.
-/

namespace Mboot.Disk

open Common Scheduler

/-! ## Scheduler calls on an intact task list -/

/-- The task list is intact and the current task is on it. -/
structure Listed (s : Sched) : Prop where
  ring : RingOk s
  current_lt : s.currentTask < s.count

/-- Task `t` is `TASK_BLOCKED` on `o`. -/
def BlockedOn (s : Sched) (t o : ℕ) : Prop := s.state t = .blocked ∧ (s.tcb t).waitObj = o

/-- From `s` to `c` nobody has gone to sleep. -/
structure NoNewSleeper (s c : Sched) : Prop where
  listed : Listed c
  sleepers : ∀ t < c.count, ∀ o, BlockedOn c t o → t < s.count ∧ BlockedOn s t o

theorem NoNewSleeper.refl {s : Sched} (h : Listed s) : NoNewSleeper s s :=
  ⟨h, fun _ ht _ hb => ⟨ht, hb⟩⟩

theorem NoNewSleeper.trans {s c d : Sched} (h : NoNewSleeper s c) (h' : NoNewSleeper c d) :
    NoNewSleeper s d := by
  refine ⟨h'.listed, fun t ht o hb => ?_⟩
  obtain ⟨hlt, hb'⟩ := h'.sleepers t ht o hb
  exact h.sleepers t hlt o hb'

/-- A store to the current task's block that does not put it to sleep. -/
theorem Listed.setCurrent {s : Sched} (h : Listed s) {b : Tcb} (hnext : b.next = s.current.next)
    (hb : b.state = .blocked → s.current.state = .blocked ∧ b.waitObj = s.current.waitObj) :
    NoNewSleeper s (s.setTcb s.currentTask b) := by
  refine ⟨⟨h.ring.of_next_eq rfl rfl (Sched.setTcb_next hnext), h.current_lt⟩,
    fun t ht o ho => ⟨ht, ?_⟩⟩
  by_cases htc : t = s.currentTask
  · subst htc
    rw [BlockedOn, Sched.state, Sched.setTcb_tcb_self] at ho
    obtain ⟨hstate, hobj⟩ := hb ho.1
    exact ⟨hstate, hobj ▸ ho.2⟩
  · rwa [BlockedOn, Sched.state, Sched.setTcb_tcb_of_ne _ _ htc] at ho

theorem Listed.schedule {s : Sched} (h : Listed s) :
    ∃ c, schedulerSchedule s = some c ∧ NoNewSleeper s c := by
  obtain ⟨u, hu, hlt, -⟩ := schedulerSchedule_spec h.ring h.current_lt
  refine ⟨switchTo s u, hu, ⟨h.ring.of_next_eq ?_ ?_ (switchTo_next s u), ?_⟩, ?_⟩
  · exact switchTo_idleTask s u
  · exact switchTo_count s u
  · rw [switchTo_currentTask, switchTo_count]
    exact hlt
  · intro t ht o hb
    rw [switchTo_count] at ht
    rw [BlockedOn, Sched.state, switchTo_tcb] at hb
    split_ifs at hb
    · cases hb.1
    · exact ⟨ht, hb⟩

theorem Listed.tick {s : Sched} (h : Listed s) (r : ℕ) :
    ∃ c, schedulerTick s r = some c ∧ NoNewSleeper s c := by
  have hpre : NoNewSleeper s (preempt s r) := by
    refine h.setCurrent rfl fun hb => ⟨?_, rfl⟩
    dsimp only at hb
    split_ifs at hb
    exact hb
  obtain ⟨c, hc, hno⟩ := hpre.listed.schedule
  exact ⟨c, hc, hpre.trans hno⟩

/-- `scheduler_block` puts the current task to sleep, and nobody else. -/
theorem Listed.block {s : Sched} (h : Listed s) (waitObj frame : ℕ) :
    ∃ c, schedulerBlock s waitObj frame = some c ∧ Listed c ∧ ∀ t < c.count, ∀ o, BlockedOn c t o →
      t = s.currentTask ∧ o = waitObj ∨ t ≠ s.currentTask ∧ t < s.count ∧ BlockedOn s t o := by
  have hlist : Listed (blockCurrent s waitObj frame) :=
    ⟨h.ring.of_next_eq rfl rfl (blockCurrent_next s waitObj frame), h.current_lt⟩
  obtain ⟨c, hc, hno⟩ := hlist.schedule
  refine ⟨c, by rwa [schedulerBlock_eq], hno.listed, fun t ht o hb => ?_⟩
  obtain ⟨hlt, hstate, hobj⟩ := hno.sleepers t ht o hb
  by_cases htc : t = s.currentTask
  · subst htc
    rw [blockCurrent, Sched.setTcb_tcb_self] at hobj
    exact .inl ⟨rfl, hobj.symm⟩
  · rw [Sched.state, blockCurrent, Sched.setTcb_tcb_of_ne _ _ htc] at hstate
    rw [blockCurrent, Sched.setTcb_tcb_of_ne _ _ htc] at hobj
    exact .inr ⟨htc, hlt, hstate, hobj⟩

/-- `scheduler_wake` leaves nobody asleep on the object. -/
theorem Listed.wake {s : Sched} (h : Listed s) (waitObj : ℕ) :
    ∃ c, schedulerWake s waitObj = some c ∧ NoNewSleeper s c ∧
      (waitObj ≠ 0 → ∀ t < c.count, ¬ BlockedOn c t waitObj) := by
  by_cases h0 : waitObj = 0
  · subst h0
    exact ⟨s, schedulerWake_zero s, .refl h, fun hne => absurd rfl hne⟩
  · refine ⟨wakeAll s waitObj, schedulerWake_eq h.ring h0,
      ⟨⟨h.ring.of_next_eq rfl rfl (wakeAll_next s waitObj), h.current_lt⟩, ?_⟩, ?_⟩
    · intro t ht o ⟨hstate, hobj⟩
      rw [wakeAll_state] at hstate
      split_ifs at hstate
      refine ⟨ht, hstate, ?_⟩
      rw [← hobj]
      show _ = (if t < s.count then wakeTcb waitObj (s.tcb t) else s.tcb t).waitObj
      split_ifs <;> simp
    · intro _ t ht ⟨hstate, hobj⟩
      have hlt : t < s.count := ht
      rw [wakeAll_state] at hstate
      split_ifs at hstate with hw
      refine hw ⟨ht, hstate, ?_⟩
      rw [← hobj]
      show _ = (if t < s.count then wakeTcb waitObj (s.tcb t) else s.tcb t).waitObj
      rw [if_pos hlt, wakeTcb_waitObj]

theorem Listed.linkTask {s : Sched} (h : Listed s) (n : NewTask) :
    NoNewSleeper s (linkTask s n) := by
  have hidle := h.ring.idle_lt
  refine ⟨⟨h.ring.linkTask n, Nat.lt_succ_of_lt h.current_lt⟩, fun t ht o ⟨hstate, hobj⟩ => ?_⟩
  rw [linkTask_state n hidle] at hstate
  split_ifs at hstate with hc
  rw [linkTask_count] at ht
  have hlt : t < s.count := by omega
  refine ⟨hlt, hstate, ?_⟩
  obtain ⟨next, htcb⟩ := linkTask_tcb_of_lt n hlt
  rw [← hobj, htcb]

theorem Listed.markExited {s : Sched} (h : Listed s) (exitCode : ℤ) :
    ∃ c, markExited s exitCode = some c ∧ NoNewSleeper s c := by
  have hex : NoNewSleeper s (exitedCurrent s exitCode) := by
    refine h.setCurrent rfl fun hb => ?_
    cases hb
  obtain ⟨c, hc, hno, -⟩ := hex.listed.wake s.current.pid
  exact ⟨c, hc, hex.trans hno⟩

/-- Every entry point of the scheduler returns with the list intact, and only
    `scheduler_block` puts a task to sleep, on its argument. -/
theorem Listed.step {s : Sched} (h : Listed s) (e : Event) :
    ∃ c, Scheduler.step s e = some c ∧ Listed c ∧ ∀ t < c.count, ∀ o, BlockedOn c t o →
      (∃ frame, e = .block o frame) ∨ t < s.count ∧ BlockedOn s t o := by
  have hquiet : (∃ c, Scheduler.step s e = some c ∧ NoNewSleeper s c) →
      ∃ c, Scheduler.step s e = some c ∧ Listed c ∧ ∀ t < c.count, ∀ o, BlockedOn c t o →
        (∃ frame, e = .block o frame) ∨ t < s.count ∧ BlockedOn s t o := by
    rintro ⟨c, hc, hno⟩
    exact ⟨c, hc, hno.listed, fun t ht o hb => Or.inr (hno.sleepers t ht o hb)⟩
  cases e with
  | createTask d st fds | createUserTask d st esp tty fds => exact hquiet ⟨_, rfl, h.linkTask _⟩
  | fork d esp fds =>
    refine hquiet ⟨_, rfl, ?_⟩
    unfold forkCurrent
    split_ifs
    · exact .refl h
    · exact h.linkTask _
  | tick r => exact hquiet (h.tick r)
  | block o f =>
    obtain ⟨c, hc, hlist, hsleep⟩ := h.block o f
    refine ⟨c, hc, hlist, fun t ht o' hb => ?_⟩
    obtain ⟨-, rfl⟩ | ⟨-, hold⟩ := hsleep t ht o' hb
    · exact Or.inl ⟨f, rfl⟩
    · exact Or.inr hold
  | wake o =>
    obtain ⟨c, hc, hno, -⟩ := h.wake o
    exact hquiet ⟨c, hc, hno⟩
  | exit code =>
    by_cases hi : s.currentTask = s.idleTask
    · exact hquiet ⟨s, if_pos hi, .refl h⟩
    · obtain ⟨c, hc, hno⟩ := h.markExited code
      exact hquiet ⟨c, (if_neg hi).trans hc, hno⟩
  | taskExit => exact hquiet (h.markExited 0)

/-! ## The invariant -/

/-- The places between `disk_lock` and `disk_unlock`. -/
def Place.Inside : Place → Prop
  | .outside | .locking _ => False
  | _ => True

/-- The call of `ata_lba_read` a task is in. -/
def Place.request? : Place → Option Request
  | .outside => none
  | .locking r | .waitBusy r | .program r _ | .poll r _ _ | .transfer r _ | .unlocking r _ => some r

/-- A place between lock and unlock in the call `r`. -/
def Place.Serves (p : Place) (r : Request) : Prop := p.Inside ∧ p.request? = some r

theorem sectorLoop_serves (r : Request) (i : UInt8) : (sectorLoop r i).Serves r := by
  unfold sectorLoop
  split_ifs <;> exact ⟨trivial, rfl⟩

theorem afterOutb_serves (r : Request) (rest : List PortWrite) : (afterOutb r rest).Serves r := by
  cases rest with
  | nil => exact sectorLoop_serves r 0
  | cons w rest => exact ⟨trivial, rfl⟩

theorem pollStatus_serves (r : Request) (i : UInt8) (timeout : UInt32) (status : UInt8) :
    (pollStatus r i timeout status).Serves r := by
  unfold pollStatus
  split_ifs <;> exact ⟨trivial, rfl⟩

namespace DiskSystem

variable {mutexAddr : ℕ} {s s' : DiskSystem}

/-- A step between lock and unlock moves the current task from inside to inside
    of one call and touches neither the lock nor the scheduler. -/
theorem transferStep_serves {input : Input} (h : s.transferStep input = some s') :
    s'.sched = s.sched ∧ s'.diskMutex = s.diskMutex ∧ ∃ r, s.here.Serves r ∧
      ∃ p : Place, p.Serves r ∧ s'.place = Function.update s.place s.sched.currentTask p := by
  unfold transferStep at h
  dsimp only at h
  split at h
  · next _ r b hhere =>
    cases h
    refine ⟨rfl, rfl, r, by rw [hhere]; exact ⟨trivial, rfl⟩, _, ?_, rfl⟩
    split_ifs <;> exact ⟨trivial, rfl⟩
  · next _ r w rest hhere =>
    cases h
    exact ⟨rfl, rfl, r, by rw [hhere]; exact ⟨trivial, rfl⟩, _, afterOutb_serves r rest, rfl⟩
  · next _ r i timeout b hhere =>
    cases h
    exact ⟨rfl, rfl, r, by rw [hhere]; exact ⟨trivial, rfl⟩, _, pollStatus_serves r i timeout b, rfl⟩
  · next _ r i words hhere =>
    split_ifs at h
    cases h
    exact ⟨rfl, rfl, r, by rw [hhere]; exact ⟨trivial, rfl⟩, _, sectorLoop_serves r (i + 1), rfl⟩
  · cases h

/-- The steps, case by case; a call and a retry both run `disk_lock`. -/
inductive Does (mutexAddr : ℕ) (s : DiskSystem) : Action → DiskSystem → Prop
  | sched {e : Event} {c : Sched} (hp : s.Permitted mutexAddr e)
      (hc : Scheduler.step s.sched e = some c) : Does mutexAddr s (.sched e) { s with sched := c }
  | lock {a : Action} {s' : DiskSystem} (r : Request) (frame : ℕ)
      (hhere : s.here = .outside ∧ a = .call r frame ∨ s.here = .locking r)
      (hl : s.diskLock mutexAddr r frame = some s') : Does mutexAddr s a s'
  | transfer {input : Input} {s' : DiskSystem} (ht : s.transferStep input = some s') :
      Does mutexAddr s (.transfer input) s'
  | unlock {s' : DiskSystem} {r : Request} {o : Outcome} (hhere : s.here = .unlocking r o)
      (hu : s.diskUnlock mutexAddr = some s') : Does mutexAddr s .unlock s'

theorem does {a : Action} (hs : s.step mutexAddr a = some s') : Does mutexAddr s a s' := by
  cases a with
  | sched e =>
    simp only [DiskSystem.step] at hs
    split_ifs at hs with hp
    obtain ⟨c, hc, rfl⟩ := Option.map_eq_some_iff.mp hs
    exact .sched hp hc
  | call r frame =>
    simp only [DiskSystem.step] at hs
    split_ifs at hs with hout
    exact .lock r frame (.inl ⟨hout, rfl⟩) hs
  | retry frame =>
    simp only [DiskSystem.step] at hs
    split at hs
    · next r hhere => exact .lock r frame (.inr hhere) hs
    · cases hs
  | transfer input => exact .transfer hs
  | unlock =>
    simp only [DiskSystem.step] at hs
    split at hs
    · next r o hhere => exact .unlock hhere hs
    · cases hs

/-- `disk_lock` leaves the task before the lock or behind it, and writes no port. -/
theorem diskLock_place {r : Request} {frame : ℕ} (hs : s.diskLock mutexAddr r frame = some s') :
    s'.outs = s.outs ∧ ∃ p : Place, (p = .locking r ∨ p = .waitBusy r) ∧
      s'.place = Function.update s.place s.sched.currentTask p := by
  unfold DiskSystem.diskLock at hs
  split_ifs at hs
  · obtain ⟨c, -, rfl⟩ := Option.map_eq_some_iff.mp hs
    exact ⟨rfl, _, .inl rfl, rfl⟩
  · cases hs
    exact ⟨rfl, _, .inr rfl, rfl⟩

structure LockInv (mutexAddr : ℕ) (s : DiskSystem) : Prop where
  sched : Listed s.sched
  exclusive : Exclusive Place.Inside s.place (s.diskMutex ≠ 0)
  /-- Nobody sleeps on a free lock. -/
  awake : s.diskMutex = 0 → ∀ t < s.sched.count, ¬ BlockedOn s.sched t mutexAddr

theorem LockInv.init (kernelDir : ℕ) (fds : FdTable) (mem : ℕ → UInt8) :
    LockInv mutexAddr (boot kernelDir fds mem) := by
  have hsched := SchedInv.init kernelDir fds
  refine ⟨⟨hsched.ring, hsched.current_lt⟩, ⟨fun t u ht => ht.elim, ?_⟩, fun _ t _ hb => ?_⟩
  · exact iff_of_false (fun h => h rfl) fun ⟨t, ht⟩ => ht
  · cases hb.1

theorem LockInv.diskLock (h : LockInv mutexAddr s) (hout : ¬ s.here.Inside) {r : Request}
    {frame : ℕ} (hs : s.diskLock mutexAddr r frame = some s') : LockInv mutexAddr s' := by
  unfold DiskSystem.diskLock at hs
  split_ifs at hs with hheld
  · obtain ⟨c, hc, hlist, -⟩ := h.sched.block mutexAddr frame
    rw [hc] at hs
    cases hs
    refine ⟨hlist, h.exclusive.move ?_, fun h0 => absurd h0 hheld⟩
    exact iff_of_false id hout
  · cases hs
    refine ⟨h.sched, h.exclusive.enter hheld trivial one_ne_zero, ?_⟩
    exact fun h0 => absurd h0 one_ne_zero

/-- `disk_unlock` returns, and wakes whoever sleeps on the lock. -/
theorem LockInv.diskUnlock (h : LockInv mutexAddr s) (hm : mutexAddr ≠ 0) (hin : s.here.Inside) :
    ∃ s', s.diskUnlock mutexAddr = some s' ∧ LockInv mutexAddr s' ∧ s'.diskMutex = 0 ∧
      s'.place = Function.update s.place s.sched.currentTask .outside := by
  obtain ⟨c, hc, hno, hwoken⟩ := h.sched.wake mutexAddr
  unfold DiskSystem.diskUnlock
  rw [hc]
  refine ⟨_, rfl, ⟨hno.listed, h.exclusive.leave hin id ?_, fun _ => hwoken hm⟩, rfl, rfl⟩
  exact fun hne => hne rfl

/-- Whoever is out of `ata_lba_read` after the step has released the lock it
    held. -/
def ReleasesOnReturn (s : DiskSystem) (a : Action) (s' : DiskSystem) : Prop :=
  ∀ t, s.place t ≠ .outside → s'.place t = .outside →
    a = .unlock ∧ t = s.sched.currentTask ∧ (s.place t).Inside ∧ s'.diskMutex = 0

/-- A step that moves the current task only, and not to the outside. -/
theorem releasesOnReturn_of_move {a : Action} {p : Place}
    (hplace : s'.place = Function.update s.place s.sched.currentTask p) (hp : p ≠ .outside) :
    ReleasesOnReturn s a s' := by
  intro t hne hout
  rw [hplace] at hout
  by_cases ht : t = s.sched.currentTask
  · subst ht
    rw [Function.update_self] at hout
    exact absurd hout hp
  · rw [Function.update_of_ne ht] at hout
    exact absurd hout hne

theorem LockInv.step (h : LockInv mutexAddr s) (hm : mutexAddr ≠ 0) {a : Action}
    (hs : s.step mutexAddr a = some s') : LockInv mutexAddr s' ∧ ReleasesOnReturn s a s' := by
  cases does hs with
  | @sched e c hp hc =>
    obtain ⟨c', hc', hlist, hsleep⟩ := h.sched.step e
    obtain rfl : c' = c := Option.some.inj (hc'.symm.trans hc)
    refine ⟨⟨hlist, h.exclusive, fun h0 t ht hb => ?_⟩, fun t hne hout => absurd hout hne⟩
    rcases hsleep t ht mutexAddr hb with ⟨frame, rfl⟩ | ⟨hlt, hold⟩
    · exact hp.2 rfl
    · exact h.awake h0 t hlt hold
  | lock r frame hhere hl =>
    obtain ⟨-, p, hp, hplace⟩ := diskLock_place hl
    refine ⟨h.diskLock ?_ hl, releasesOnReturn_of_move hplace ?_⟩
    · obtain ⟨hhere, -⟩ | hhere := hhere <;> rw [hhere] <;> exact id
    · obtain rfl | rfl := hp <;> simp
  | transfer ht =>
    obtain ⟨hsched, hmutex, _, ⟨hin, -⟩, p, ⟨hp, -⟩, hplace⟩ := transferStep_serves ht
    refine ⟨⟨hsched ▸ h.sched, ?_, ?_⟩, releasesOnReturn_of_move hplace ?_⟩
    · rw [hplace, hmutex]
      exact h.exclusive.move (iff_of_true hp hin)
    · rw [hmutex, hsched]
      exact h.awake
    · rintro rfl
      exact hp
  | unlock hhere hu =>
    have hin : s.here.Inside := by rw [hhere]; trivial
    obtain ⟨u, hu', hinv, h0, hplace⟩ := h.diskUnlock hm hin
    cases hu'.symm.trans hu
    refine ⟨hinv, fun t hne hout => ?_⟩
    by_cases ht : t = s.sched.currentTask
    · subst ht
      exact ⟨rfl, rfl, hin, h0⟩
    · rw [hplace, Function.update_of_ne ht] at hout
      exact absurd hout hne

theorem LockInv.of_reachable (hm : mutexAddr ≠ 0) {kernelDir : ℕ} {fds : FdTable}
    {mem : ℕ → UInt8}
    (h : Reachable (Steps (DiskSystem.step mutexAddr)) (boot kernelDir fds mem) s) :
    LockInv mutexAddr s :=
  h.invariant (P := LockInv mutexAddr) (LockInv.init kernelDir fds mem) fun _ _ _ hinv hs =>
    (hinv.step hm hs).1

end DiskSystem

open DiskSystem

/-- The disk with page directories around it. -/
def inDisk (mutexAddr : ℕ) : Around DiskSystem Action where
  sched := DiskSystem.sched
  put := fun s c => { s with sched := c }
  step := DiskSystem.step mutexAddr
  event := fun
    | .sched e => some e
    | _ => none
  put_sched := fun _ => rfl

/-- The steps of the disk in which no fork copies a control block. -/
abbrev DiskStep (mutexAddr : ℕ) := UndisturbedStep (inDisk mutexAddr) fun _ _ => True

/-- **The disk lock is correct**, unless a fork has copied a control block. In every other
    interleaving:
    at most one task is between `disk_lock` and `disk_unlock`, and `disk_mutex`
    says whether there is one; a task gets out of `ata_lba_read` only by its own
    `disk_unlock`, from inside, with `disk_mutex` zero afterwards, and on every
    way out this call returns; no task is blocked on a free lock. -/
theorem disk_lock_correct {mutexAddr : ℕ} (hm : mutexAddr ≠ 0) {kernelDir : ℕ} {fds : FdTable}
    {mem : ℕ → UInt8} {c : Spaces DiskSystem}
    (h : Reachable (DiskStep mutexAddr) (.start (boot kernelDir fds mem)) c) :
    (∀ t u, (c.sys.place t).Inside → (c.sys.place u).Inside → t = u) ∧
    (c.sys.diskMutex ≠ 0 ↔ ∃ t, (c.sys.place t).Inside) ∧
    (∀ e c', DiskStep mutexAddr c e c' → ∀ t, c.sys.place t ≠ .outside →
      c'.sys.place t = .outside → (∃ copied, e = .run .unlock copied) ∧
        t = c.sys.sched.currentTask ∧ (c.sys.place t).Inside ∧ c'.sys.diskMutex = 0) ∧
    (∀ r o copied, c.sys.here = .unlocking r o →
      ∃ c', c.step (inDisk mutexAddr) (.run .unlock copied) = some c' ∧
        c'.sys.place c.sys.sched.currentTask = .outside) ∧
    (c.sys.diskMutex = 0 → ∀ t < c.sys.sched.count,
      ¬ (c.sys.sched.state t = .blocked ∧ (c.sys.sched.tcb t).waitObj = mutexAddr)) := by
  obtain ⟨_, hrun⟩ := h
  obtain ⟨s, rfl, _, hreach⟩ := run_of_undisturbed hrun
  have hinv := LockInv.of_reachable hm ⟨_, hreach.of_restrict⟩
  refine ⟨hinv.exclusive.unique, hinv.exclusive.locked_iff, ?_, fun r o copied hhere => ?_,
    hinv.awake⟩
  · rintro (⟨a, copied⟩ | ⟨dir, t, b⟩) c' ⟨hok, hs⟩ t hne hout
    · rw [Steps, Spaces.step_start (s := s) hok.1, Option.map_eq_some_iff] at hs
      obtain ⟨s', hs', rfl⟩ := hs
      obtain ⟨rfl, hrest⟩ := (hinv.step hm hs').2 t hne hout
      exact ⟨⟨copied, rfl⟩, hrest⟩
    · exact hok.elim
  · obtain ⟨s', hs', -, -, hplace⟩ :=
      hinv.diskUnlock hm (by rw [show s.here = .unlocking r o from hhere]; trivial)
    refine ⟨.start s', ?_, ?_⟩
    · rw [Spaces.step_start fun hne => absurd rfl hne]
      simp only [inDisk, DiskSystem.step, show s.here = .unlocking r o from hhere, hs']
      rfl
    · simp only [Spaces.start_sys]
      rw [hplace, Function.update_self]

/-- Task 2 reads while task 1, which called later, sleeps on the lock. -/
theorem disk_lock_correct_contention :
    ∃ c, Reachable (DiskStep 0x10400) (.start (boot 0 (fun _ => -1) fun _ => 0)) c ∧
      (c.sys.place 2).Inside ∧ c.sys.sched.state 1 = .blocked ∧
      (c.sys.sched.tcb 1).waitObj = 0x10400 ∧
      (∀ u, (c.sys.place u).Inside → u = 2) ∧ c.sys.diskMutex ≠ 0 := by
  obtain ⟨s, hs, hplace, hstate, hobj⟩ : ∃ s,
      Run (Steps (DiskSystem.step 0x10400)) (boot 0 (fun _ => -1) fun _ => 0)
        [.sched (.createTask 0 0x200000 fun _ => -1), .sched (.createTask 0 0x300000 fun _ => -1),
          .sched (.tick 0), .call ⟨63, 1, 0x400000, 0⟩ 0, .sched (.tick 0),
          .call ⟨64, 2, 0x500000, 0⟩ 0] s ∧
      s.place 2 = .waitBusy ⟨63, 1, 0x400000, 0⟩ ∧ s.sched.state 1 = .blocked ∧
      (s.sched.tcb 1).waitObj = 0x10400 :=
    exists_run (by decide +kernel)
  have hreach : Reachable (DiskStep 0x10400) (.start (boot 0 (fun _ => -1) fun _ => 0))
      (.start s) :=
    ⟨_, undisturbed_of_run (K := inDisk 0x10400) (hs.mono fun _ _ _ hst => ⟨trivial, hst⟩)⟩
  have h := disk_lock_correct (by decide) hreach
  have h2 : (s.place 2).Inside := by
    rw [hplace]
    trivial
  exact ⟨.start s, hreach, h2, hstate, hobj, fun u hu => h.1 u 2 hu h2, h.2.1.mpr ⟨2, h2⟩⟩

/-- Task 1 forks, with its control block on a page that is copied. The child takes the lock,
    the parent sleeps on it, and the child reads no sector and unlocks. -/
def missedUnlock : List (SpaceEvent Action) :=
  [.run (.sched (.createUserTask 0x30000 0x200000 0x20FFC0 0 fun _ => -1)) [],
    .run (.sched (.tick 0)) [], .run (.sched (.fork 0x40000 0x5F00 fun _ => -1)) [1],
    .run (.sched (.tick 0)) [], .run (.sched (.tick 0)) [],
    .run (.call ⟨63, 0, 0x400000, 0⟩ 0) [], .run (.sched (.tick 0)) [],
    .run (.call ⟨64, 1, 0x500000, 0⟩ 0) [], .run (.sched (.tick 0)) [],
    .run (.transfer (.status 0)) [], .run (.transfer .nothing) [], .run (.transfer .nothing) [],
    .run (.transfer .nothing) [], .run (.transfer .nothing) [], .run (.transfer .nothing) [],
    .run (.transfer .nothing) [], .run .unlock []]

/-- The child's `scheduler_wake` sees the parent's control block as it was at the fork, and
    the parent is left sleeping on a free lock. -/
theorem unlock_misses_parent : ∃ c,
    Run (restrict (Steps (Spaces.step (inDisk 0x10400))) (Accepted fun _ _ => True))
      (.start (boot 0x20000 (fun _ => -1) fun _ => 0)) missedUnlock c ∧
    1 < c.sys.sched.count ∧ c.sys.diskMutex = 0 ∧ c.sys.sched.state 1 = .blocked ∧
    (c.sys.sched.tcb 1).waitObj = 0x10400 :=
  exists_run_restrict (by decide +kernel)

/-! ## Command sequences -/

/-- The port writes done so far, with those a task is about to do, are the
    commands of the reads `rs`, one after the other. -/
structure Serialized (s : DiskSystem) (rs : List Request) : Prop where
  pending : ∀ t r rest, s.place t = .program r rest → s.outs ++ rest = rs.flatMap command
  settled : (∀ t r rest, s.place t ≠ .program r rest) → s.outs = rs.flatMap command

variable {mutexAddr : ℕ} {s s' : DiskSystem} {rs : List Request}

/-- A step that neither programs the device nor begins to. -/
theorem Serialized.of_move (h : Serialized s rs) {p q : Place} (houts : s'.outs = s.outs)
    (hhere : s.here = p) (hplace : s'.place = Function.update s.place s.sched.currentTask q)
    (hold : ∀ r rest, p ≠ .program r rest) (hnew : ∀ r rest, q ≠ .program r rest) :
    Serialized s' rs := by
  have hsame : ∀ u r rest, s'.place u = .program r rest ↔ s.place u = .program r rest := by
    intro u r rest
    rw [hplace]
    by_cases hu : u = s.sched.currentTask
    · subst hu
      rw [Function.update_self, show s.place s.sched.currentTask = p from hhere]
      exact iff_of_false (hnew r rest) (hold r rest)
    · rw [Function.update_of_ne hu]
  constructor
  · intro u r rest hu
    rw [houts]
    exact h.pending u r rest ((hsame u r rest).mp hu)
  · intro hno
    rw [houts]
    exact h.settled fun u r rest hu => hno u r rest ((hsame u r rest).mpr hu)

theorem sectorLoop_ne_program (r : Request) (i : UInt8) (r' : Request) (rest : List PortWrite) :
    sectorLoop r i ≠ .program r' rest := by
  unfold sectorLoop
  split_ifs <;> simp

/-- Nobody but the task inside is about to write a port. -/
theorem DiskSystem.LockInv.program_here (hinv : LockInv mutexAddr s) (hin : s.here.Inside) {t : ℕ}
    {r : Request} {rest : List PortWrite} (ht : s.place t = .program r rest) :
    t = s.sched.currentTask :=
  hinv.exclusive.unique t _ (by rw [ht]; trivial) hin

theorem DiskSystem.LockInv.program_of_update (hinv : LockInv mutexAddr s) (hin : s.here.Inside) {p : Place}
    {t : ℕ} {r : Request} {rest : List PortWrite}
    (ht : Function.update s.place s.sched.currentTask p t = .program r rest) :
    p = .program r rest := by
  by_cases htc : t = s.sched.currentTask
  · rwa [htc, Function.update_self] at ht
  · rw [Function.update_of_ne htc] at ht
    exact absurd (hinv.program_here hin ht) htc

/-- A step between lock and unlock. -/
theorem Serialized.transferStep (h : Serialized s rs) (hinv : LockInv mutexAddr s) {input : Input}
    (hs : s.transferStep input = some s') :
    ∃ rs', Serialized s' rs' ∧ ∀ r ∈ rs', r ∈ rs ∨ s.here.request? = some r := by
  unfold DiskSystem.transferStep at hs
  dsimp only at hs
  split at hs
  · next _ r b hhere =>
    cases hs
    have hin : s.here.Inside := by rw [hhere]; trivial
    have hnone : ∀ t r' rest, s.place t ≠ .program r' rest := by
      intro t r' rest ht
      obtain rfl := hinv.program_here hin ht
      cases hhere.symm.trans ht
    split_ifs
    · exact ⟨rs, h.of_move rfl hhere rfl (by simp) (by simp), fun _ => .inl⟩
    · -- the command of `r` is about to be written
      refine ⟨rs ++ [r], ⟨fun t r' rest ht => ?_, fun hno => ?_⟩, fun r' hr => ?_⟩
      · cases hinv.program_of_update hin ht
        show s.outs ++ command r = _
        rw [h.settled hnone]
        simp
      · exact absurd (Function.update_self ..) (hno s.sched.currentTask r (command r))
      · rw [hhere]
        simpa [Place.request?, eq_comm] using hr
  · next _ r w rest hhere =>
    cases hs
    have hpend := h.pending _ r (w :: rest) hhere
    refine ⟨rs, ⟨fun t r' rest' ht => ?_, fun hno => ?_⟩, fun _ => .inl⟩
    · have hp := hinv.program_of_update (by rw [hhere]; trivial) ht
      cases rest with
      | nil => exact absurd hp (sectorLoop_ne_program r 0 r' rest')
      | cons w' rest =>
        cases hp
        simpa using hpend
    · cases rest with
      | nil => exact hpend
      | cons w' rest =>
        exact absurd (Function.update_self ..) (hno s.sched.currentTask r (w' :: rest))
  · next _ r i timeout b hhere =>
    cases hs
    refine ⟨rs, h.of_move rfl hhere rfl (by simp) fun r' rest => ?_, fun _ => .inl⟩
    unfold pollStatus
    split_ifs <;> simp
  · next _ r i words hhere =>
    split_ifs at hs
    cases hs
    exact ⟨rs, h.of_move rfl hhere rfl (by simp) (sectorLoop_ne_program r (i + 1)), fun _ => .inl⟩
  · cases hs

theorem Serialized.step (h : Serialized s rs) (hinv : LockInv mutexAddr s) {a : Action}
    (hs : s.step mutexAddr a = some s') :
    ∃ rs', Serialized s' rs' ∧ ∀ r ∈ rs', r ∈ rs ∨ s.here.request? = some r := by
  cases does hs with
  | sched hp hc => exact ⟨rs, ⟨h.pending, h.settled⟩, fun _ => .inl⟩
  | lock r frame hhere hl =>
    obtain ⟨houts, p, hp, hplace⟩ := diskLock_place hl
    refine ⟨rs, h.of_move houts rfl hplace (fun r' rest => ?_) fun r' rest => ?_, fun _ => .inl⟩
    · obtain ⟨hhere, -⟩ | hhere := hhere <;> simp [hhere]
    · obtain rfl | rfl := hp <;> simp
  | transfer ht => exact h.transferStep hinv ht
  | unlock hhere hu =>
    obtain ⟨c, -, rfl⟩ := Option.map_eq_some_iff.mp hu
    exact ⟨rs, h.of_move rfl hhere rfl (by simp) (by simp), fun _ => .inl⟩

/-- A task is in the call it was in, or in the one it has just made. -/
theorem request_step {a : Action} (hs : s.step mutexAddr a = some s') {t : ℕ} {r : Request}
    (hr : (s'.place t).request? = some r) :
    (s.place t).request? = some r ∨ ∃ frame, a = .call r frame := by
  have hmove : ∀ p, s'.place = Function.update s.place s.sched.currentTask p →
      (p.request? = some r → s.here.request? = some r ∨ ∃ frame, a = .call r frame) →
      (s.place t).request? = some r ∨ ∃ frame, a = .call r frame := by
    intro p hplace hp
    rw [hplace] at hr
    by_cases ht : t = s.sched.currentTask
    · subst ht
      rw [Function.update_self] at hr
      exact hp hr
    · rw [Function.update_of_ne ht] at hr
      exact .inl hr
  cases does hs with
  | sched hp hc => exact .inl hr
  | lock q frame hhere hl =>
    obtain ⟨-, p, hp, hplace⟩ := diskLock_place hl
    refine hmove p hplace fun h => ?_
    obtain rfl : q = r := by
      obtain rfl | rfl := hp <;> exact Option.some.inj h
    obtain ⟨-, ha⟩ | hhere := hhere
    · exact .inr ⟨frame, ha⟩
    · exact .inl (by rw [hhere]; rfl)
  | transfer ht =>
    obtain ⟨-, -, q, hhere, p, hp, hplace⟩ := transferStep_serves ht
    exact hmove p hplace fun h => .inl (hhere.2.trans (hp.2.symm.trans h))
  | unlock hhere hu =>
    obtain ⟨c, -, rfl⟩ := Option.map_eq_some_iff.mp hu
    exact hmove .outside rfl nofun

/-- **Commands are serialised.** The device sees the commands of different reads
    one after the other, never mixed: the writes so far are whole commands of
    calls that were made, except for those the task inside is about to complete. -/
theorem commands_serialized (hm : mutexAddr ≠ 0) {kernelDir : ℕ} {fds : FdTable} {mem : ℕ → UInt8}
    {as : List Action} (h : Run (Steps (DiskSystem.step mutexAddr)) (boot kernelDir fds mem) as s) :
    ∃ rs, Serialized s rs ∧ ∀ r ∈ rs, ∃ frame, Action.call r frame ∈ as := by
  -- along the run every task is in a call that was made
  have hall : LockInv mutexAddr s ∧
      (∀ t r, (s.place t).request? = some r → ∃ frame, Action.call r frame ∈ as) ∧
      ∃ rs, Serialized s rs ∧ ∀ r ∈ rs, ∃ frame, Action.call r frame ∈ as := by
    induction h with
    | nil => exact ⟨LockInv.init kernelDir fds mem, nofun, [], ⟨nofun, fun _ => rfl⟩, nofun⟩
    | @snoc u v as a _ hstep ih =>
      obtain ⟨hinv, hcalls, rs, hser, hrs⟩ := ih
      have hlater : ∀ {r}, (∃ frame, Action.call r frame ∈ as) →
          ∃ frame, Action.call r frame ∈ as ++ [a] := fun ⟨frame, hf⟩ =>
        ⟨frame, List.mem_append_left _ hf⟩
      refine ⟨(hinv.step hm hstep).1, fun t r hr => ?_, ?_⟩
      · rcases request_step hstep hr with hr | ⟨frame, rfl⟩
        · exact hlater (hcalls t r hr)
        · exact ⟨frame, by simp⟩
      · obtain ⟨rs', hser', hrs'⟩ := hser.step hinv hstep
        refine ⟨rs', hser', fun r hr => hlater ?_⟩
        rcases hrs' r hr with hr | hr
        · exact hrs r hr
        · exact hcalls _ r hr
  exact hall.2.2

/-- A read that has written two of the six registers. -/
theorem commands_serialized_one_read : ∃ s : DiskSystem, s.outs.length = 2 ∧
    ∃ rs, Serialized s rs ∧ ∀ r ∈ rs, r = ⟨63, 1, 0x400000, 0⟩ := by
  obtain ⟨s, hrun, hlen⟩ : ∃ s, Run (Steps (DiskSystem.step 0x10400))
      (boot 0 (fun _ => -1) fun _ => 0) [.sched (.createTask 0 0x200000 fun _ => -1),
        .sched (.tick 0), .call ⟨63, 1, 0x400000, 0⟩ 0, .transfer (.status 0), .transfer .nothing,
        .transfer .nothing] s ∧ s.outs.length = 2 :=
    exists_run (by decide +kernel)
  obtain ⟨rs, hser, hcalls⟩ := commands_serialized (by decide) hrun
  refine ⟨s, hlen, rs, hser, fun r hr => ?_⟩
  obtain ⟨frame, hmem⟩ := hcalls r hr
  simp only [List.mem_cons, List.not_mem_nil, reduceCtorEq, Action.call.injEq, or_false,
    false_or] at hmem
  exact hmem.1

end Mboot.Disk
