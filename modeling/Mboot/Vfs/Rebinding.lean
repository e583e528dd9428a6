import Mboot.Vfs.ControllingTty

/-!
# Rebinding the standard descriptors

`vfs_bind_tty` (vfs.c lines 527–538) stores the handle of a terminal into
descriptors 0, 1 and 2. It is called when a task gets its table, and again by
`ioctl(TIOCSCTTY)` and by `exec` with a terminal, on a table in which `dup2` may
have put a file, a cpuinfo device or a socket there. `vfs_dup2` closes the handle
it replaces; `vfs_bind_tty` does not.

* `rebinding_exact_iff`: the reference counts stay exact exactly when none of the
  three descriptors holds a handle with a reference count.
* `rebinding_leaks_cpuinfo`: `init` moves the cpuinfo device to its standard
  output and then selects a terminal.
-/

namespace Mboot.Vfs

open Common Scheduler Fat16 Net

variable {τ ν : Type*}

/-- The number of descriptors of one table that hold the handle. -/
def slotsIn (table : FdTable) (handle : ℤ) : ℕ :=
  (Finset.univ.filter fun i => table i = handle).card

/-- The number of descriptor slots of all tasks that hold the handle. -/
def Kernel.slots (k : Kernel τ ν) (handle : ℤ) : ℕ :=
  ∑ t ∈ Finset.range k.count, slotsIn (k.procs t).fds handle

/-- Every `refs` field is the number of descriptor slots that hold the handle. -/
structure RefsExact (k : Kernel τ ν) : Prop where
  files : ∀ i, (k.back.openFiles i).refs = k.slots i.val
  cpuinfo : ∀ i, (k.back.cpuinfoFiles i).refs = k.slots (devCpuinfoBase - i.val)
  sockets : ∀ i, (k.back.sockets i).refs = k.slots (socketHandleFromIndex i)

/-- A standard descriptor of the task is on an object with a reference count. -/
def StdCounted (p : Proc) : Prop :=
  ∃ i : Fin maxFds, i.val < 3 ∧ ∃ o : Object, o.counted = true ∧ p.fds i = o.handle

/-- The kernel with another control block for task `t`. -/
def Kernel.setProc (k : Kernel τ ν) (t : ℕ) (p : Proc) : Kernel τ ν :=
  { k with procs := Function.update k.procs t p }

variable {k : Kernel τ ν} {t : ℕ} {p : Proc} {o : Object}

/-- The three tables at once. -/
theorem refsExact_iff :
    RefsExact k ↔ ∀ o used refs, counter k.back o = some (used, refs) → refs = k.slots o.handle := by
  constructor
  · intro h o used refs hc
    cases o with
    | file i => cases hc; exact congrArg _ (h.files i)
    | cpuinfo i => cases hc; exact h.cpuinfo i
    | socket i => cases hc; exact h.sockets i
    | _ => cases hc
  · intro h
    exact ⟨fun i => Int.ofNat_inj.mp (h (.file i) _ _ rfl), fun i => h (.cpuinfo i) _ _ rfl,
      fun i => h (.socket i) _ _ rfl⟩

theorem Object.counted_iff {b : Backends τ ν} :
    o.counted = true ↔ ∃ used refs, counter b o = some (used, refs) := by
  cases o <;> simp [Object.counted, counter]

/-- A terminal has no reference count. -/
theorem tty_ne_counted {tty : ℤ} (h0 : 0 ≤ tty) (h1 : tty < ttyCount) (ho : o.counted = true) :
    devTtyBase - tty ≠ o.handle := by
  have hr := o.handle_range
  simp only [devTtyBase, ttyCount] at h1 ⊢
  cases o <;> simp only [Object.counted, Bool.false_eq_true] at ho <;> dsimp only at hr <;> omega

/-! ## The slots after a store -/

/-- A new table for one task. -/
theorem Kernel.slots_setProc (ht : t < k.count) (p : Proc) (handle : ℤ) :
    (k.setProc t p).slots handle + slotsIn (k.procs t).fds handle =
      k.slots handle + slotsIn p.fds handle :=
  sum_update_add (fun p : Proc => slotsIn p.fds handle) k.procs p (Finset.mem_range.mpr ht)

/-- `vfs_bind_tty` drops the standard descriptors that held the handle of an
    object with a reference count, and adds none. -/
theorem slots_vfsBindTty (table : FdTable) (tty : ℤ) (ho : o.counted = true) :
    slotsIn (vfsBindTty table tty) o.handle +
        (Finset.univ.filter fun i : Fin maxFds => i.val < 3 ∧ table i = o.handle).card =
      slotsIn table o.handle := by
  have htty : ∀ i : Fin maxFds, vfsBindTty table tty i = o.handle ↔
      ¬ i.val < 3 ∧ table i = o.handle := by
    intro i
    simp only [vfsBindTty]
    split_ifs with hi hv
    · exact iff_of_false (tty_ne_counted hv.1 hv.2 ho) fun h => h.1 hi
    · exact iff_of_false (tty_ne_counted le_rfl (by decide) ho) fun h => h.1 hi
    · exact ⟨fun h => ⟨hi, h⟩, fun h => h.2⟩
  have hsplit := Finset.card_filter_add_card_filter_not
    (s := Finset.univ.filter fun i => table i = o.handle) (fun i : Fin maxFds => i.val < 3)
  simp only [Finset.filter_filter] at hsplit
  simp only [slotsIn, htty]
  simp only [and_comm] at hsplit ⊢
  omega

/-- Binding the terminal keeps the counts exact exactly when the standard
    descriptors hold no counted handle. -/
theorem RefsExact.bind_iff (h : RefsExact k) (ht : t < k.count) (tty : ℤ) :
    RefsExact (k.setProc t { k.procs t with tty := tty, fds := vfsBindTty (k.procs t).fds tty }) ↔
      ¬ StdCounted (k.procs t) := by
  rw [refsExact_iff] at h ⊢
  set p : Proc := { k.procs t with tty := tty, fds := vfsBindTty (k.procs t).fds tty }
  -- what the rebinding takes from the slots of one object
  have hslots : ∀ o : Object, o.counted = true →
      (k.setProc t p).slots o.handle + (Finset.univ.filter fun i : Fin maxFds =>
        i.val < 3 ∧ (k.procs t).fds i = o.handle).card = k.slots o.handle := by
    intro o ho
    have hset := k.slots_setProc ht p o.handle
    have hbind : slotsIn p.fds o.handle + _ = _ := slots_vfsBindTty (k.procs t).fds tty ho
    omega
  constructor
  · rintro h' ⟨i, hi, o, ho, hfd⟩
    obtain ⟨used, refs, hc⟩ := (Object.counted_iff (b := k.back)).mp ho
    have hpos : 0 < (Finset.univ.filter fun i : Fin maxFds =>
        i.val < 3 ∧ (k.procs t).fds i = o.handle).card :=
      Finset.card_pos.mpr ⟨i, Finset.mem_filter.mpr ⟨Finset.mem_univ i, hi, hfd⟩⟩
    have hbefore := h o used refs hc
    have hafter := h' o used refs hc
    have := hslots o ho
    omega
  · intro hstd o used refs hc
    have ho := (Object.counted_iff (b := k.back)).mpr ⟨used, refs, hc⟩
    have hzero : (Finset.univ.filter fun i : Fin maxFds =>
        i.val < 3 ∧ (k.procs t).fds i = o.handle).card = 0 := by
      refine Finset.card_eq_zero.mpr (Finset.filter_eq_empty_iff.mpr fun i _ hi => ?_)
      exact hstd ⟨i, hi.1, o, ho, hi.2⟩
    have := hslots o ho
    rw [h o used refs hc]
    omega

theorem Kernel.setProc_self (k : Kernel τ ν) (t : ℕ) : k.setProc t (k.procs t) = k := by
  unfold Kernel.setProc
  rw [Function.update_eq_self]

/-- **When rebinding the terminal keeps the reference counts exact.** In every
    state with exact counts and for every task: `scheduler_set_tty` keeps them
    exact if and only if it refuses the terminal or no standard descriptor of the
    task holds a file, cpuinfo or socket handle, and so does the commit of `exec`,
    which refuses no terminal but leaves the descriptors alone for a negative
    one. -/
theorem rebinding_exact_iff (h : RefsExact k) (ht : t < k.count) (tty : ℤ) :
    (RefsExact (k.setProc t (schedulerSetTty (k.procs t) tty).2) ↔
      (0 ≤ tty ∧ tty < ttyCount → ¬ StdCounted (k.procs t))) ∧
    (RefsExact (k.setProc t (execCommit (k.procs t) tty)) ↔
      (0 ≤ tty → ¬ StdCounted (k.procs t))) := by
  constructor
  · unfold schedulerSetTty
    by_cases hv : 0 ≤ tty ∧ tty < ttyCount
    · rw [if_pos hv, forall_prop_of_true hv]
      exact h.bind_iff ht tty
    · rw [if_neg hv, Kernel.setProc_self]
      exact iff_of_true h fun hv' => absurd hv' hv
  · unfold execCommit
    by_cases h0 : 0 ≤ tty
    · rw [if_pos h0, forall_prop_of_true h0]
      exact h.bind_iff ht tty
    · rw [if_neg h0, Kernel.setProc_self]
      exact iff_of_true h fun h0' => absurd h0' h0

/-! ## The cpuinfo device on standard output -/

instance (k : Kernel τ ν) : Decidable (RefsExact k) :=
  decidable_of_iff
    ((∀ i, (k.back.openFiles i).refs = k.slots i.val) ∧
      (∀ i, (k.back.cpuinfoFiles i).refs = k.slots (devCpuinfoBase - i.val)) ∧
      ∀ i, (k.back.sockets i).refs = k.slots (socketHandleFromIndex i))
    ⟨fun h => ⟨h.1, h.2.1, h.2.2⟩, fun h => ⟨h.files, h.cpuinfo, h.sockets⟩⟩

/-- With the cpuinfo device in descriptor 3 `init` may select terminal 2, by `ioctl`
    or by `exec`: the device keeps its one reference. -/
theorem rebinding_exact_iff_cpuinfo :
    ∃ k, Reachable (Steps (Kernel.ttyStep idleDevices)) bootSystem.kernel k ∧
      (k.back.cpuinfoFiles 0).refs = 1 ∧
      RefsExact (k.setProc 1 (schedulerSetTty (k.procs 1) 2).2) ∧
      RefsExact (k.setProc 1 (execCommit (k.procs 1) 2)) := by
  obtain ⟨k, hrun, hrefs, hexact, ht, hfds⟩ :
      ∃ k, Run (Steps (Kernel.ttyStep idleDevices)) bootSystem.kernel
        [(1, .vfs (.open (some "/dev/cpuinfo".toList) none))] k ∧
      (k.back.cpuinfoFiles 0).refs = 1 ∧ RefsExact k ∧ 1 < k.count ∧
      ∀ i : Fin maxFds, i.val < 3 → (k.procs 1).fds i = devTtyBase - 0 :=
    exists_run (by decide +kernel)
  have hstd : ¬ StdCounted (k.procs 1) := by
    rintro ⟨i, hi, o, ho, hfd⟩
    exact tty_ne_counted le_rfl (by decide) ho ((hfds i hi).symm.trans hfd)
  have h := rebinding_exact_iff hexact ht 2
  exact ⟨k, ⟨_, hrun⟩, hrefs, h.1.mpr fun _ => hstd, h.2.mpr fun _ => hstd⟩

/-- **Rebinding leaks a reference.** `init` opens the cpuinfo device, which gets
    descriptor 3, and duplicates it onto descriptor 1: two slots, two references.
    `ioctl(TIOCSCTTY, 0)` then takes descriptor 1 away, and so does an `exec` with
    terminal 0, and the device keeps both references. -/
theorem rebinding_leaks_cpuinfo :
    ∃ k, Reachable (Steps (Kernel.ttyStep idleDevices)) bootSystem.kernel k ∧ RefsExact k ∧
      (k.back.cpuinfoFiles 0).refs = 2 ∧
      ¬ RefsExact (k.setProc 1 (schedulerSetTty (k.procs 1) 0).2) ∧
      ¬ RefsExact (k.setProc 1 (execCommit (k.procs 1) 0)) := by
  obtain ⟨k, hrun, hseen⟩ : ∃ k, Run (Steps (Kernel.ttyStep idleDevices)) bootSystem.kernel
      [(1, .vfs (.open (some "/dev/cpuinfo".toList) none)), (1, .vfs (.dup2 3 1))] k ∧
      RefsExact k ∧ (k.back.cpuinfoFiles 0).refs = 2 ∧
      ¬ RefsExact (k.setProc 1 (schedulerSetTty (k.procs 1) 0).2) ∧
      ¬ RefsExact (k.setProc 1 (execCommit (k.procs 1) 0)) :=
    exists_run (by decide +kernel)
  exact ⟨k, ⟨_, hrun⟩, hseen⟩

end Mboot.Vfs
