import Mboot.Common.Counting
import Mboot.Vfs.RefCount

/-!
# The invariant of the descriptor tables

`Inv s`: every descriptor of a task that has not exited holds the handle of the
object on record for it, in the incarnation that is still current, and the
reference counters are the number of descriptors on record.

The calls change the tables in few ways, and each has its lemma: a slot is
filled or cleared (`Inv.setSlot`), the backends change under the tables
(`Inv.setBack`), a table is added by fork (`Inv.fork`) or removed by exit
(`Inv.exit`). `Inv.step` puts them together for every call that is `Clear`: one
that does not make the handle of a `/dev/udp` terminal coincide with the handle
of a socket in use.
-/

namespace Mboot.Vfs

open Common Scheduler Fat16 Net

variable {τ ν : Type*}

/-! ## Counting descriptors -/

/-- The objects on record. -/
def Record.objects (r : Record) (i : Fin maxFds) : Option Object := (r i).map Prod.fst

/-- The references a table contributes. -/
def Record.count (r : Record) : Object → ℕ := tableCount r.objects (List.finRange maxFds)

/-- The tasks that have not exited. -/
def Kernel.liveTasks (k : Kernel τ ν) : Finset ℕ :=
  {t ∈ Finset.range k.count | (k.procs t).exited = false}

/-- The number of descriptors of live tasks on record for each object. -/
def System.total (s : System τ ν) : Object → ℕ := ∑ t ∈ s.kernel.liveTasks, (s.records t).count

theorem Kernel.mem_liveTasks {k : Kernel τ ν} {t : ℕ} : t ∈ k.liveTasks ↔ k.Live t := by
  simp [Kernel.liveTasks, Kernel.Live]

theorem Record.count_eq_sum (r : Record) : r.count = ∑ i, slotCount (r.objects i) := by
  rw [Record.count, tableCount, Fin.sum_univ_def]

theorem Record.count_update (r : Record) (i : Fin maxFds) (v : Option (Object × ℕ)) :
    Record.count (Function.update r i v) + slotCount (r.objects i) =
      r.count + slotCount (v.map Prod.fst) := by
  have h := sum_update_add (fun v : Option (Object × ℕ) => slotCount (v.map Prod.fst)) r v
    (Finset.mem_univ i)
  simp only [Record.count_eq_sum, Record.objects]
  exact h

theorem slotCount_apply (d : Option Object) (o : Object) :
    slotCount d o = if d = some o then 1 else 0 := by
  cases d with
  | none => simp [slotCount]
  | some o' => simp [slotCount, Pi.single_apply, eq_comm]

theorem Record.count_pos {r : Record} {o : Object} :
    0 < r.count o ↔ ∃ i, r.objects i = some o := by
  simp [Record.count_eq_sum, Finset.sum_apply, slotCount_apply, Finset.filter_nonempty_iff]

theorem Record.count_le (r : Record) (o : Object) : r.count o ≤ maxFds := by
  rw [Record.count_eq_sum, Finset.sum_apply]
  calc ∑ i, slotCount (r.objects i) o ≤ ∑ _i : Fin maxFds, 1 :=
        Finset.sum_le_sum fun i _ => by rw [slotCount_apply]; split_ifs <;> omega
    _ = maxFds := by simp

variable {s : System τ ν}

theorem System.total_pos {o : Object} :
    0 < s.total o ↔ ∃ t, s.kernel.Live t ∧ ∃ i, (s.records t).objects i = some o := by
  simp only [System.total, Finset.sum_apply, Finset.sum_pos_iff, Kernel.mem_liveTasks,
    Record.count_pos]

theorem System.total_le (s : System τ ν) (o : Object) : s.total o ≤ maxFds * s.kernel.count := by
  rw [System.total, Finset.sum_apply]
  calc ∑ t ∈ s.kernel.liveTasks, (s.records t).count o
      ≤ ∑ _t ∈ s.kernel.liveTasks, maxFds :=
        Finset.sum_le_sum fun t _ => (s.records t).count_le o
    _ ≤ maxFds * s.kernel.count := by
        rw [Finset.sum_const, smul_eq_mul, mul_comm]
        refine Nat.mul_le_mul_left _ ((Finset.card_filter_le _ _).trans ?_)
        simp

/-- The sum over the live tasks when the table of one of them changes. -/
theorem System.total_update {t : ℕ} {k : Kernel τ ν} {r : Record} {gen : Object → ℕ}
    (hk : k.liveTasks = s.kernel.liveTasks) (ht : s.kernel.Live t) :
    System.total ⟨k, Function.update s.records t r, gen⟩ + (s.records t).count =
      s.total + r.count := by
  rw [System.total, System.total, hk]
  exact sum_update_add Record.count s.records r (Kernel.mem_liveTasks.mpr ht)

/-! ## The invariant -/

/-- The descriptors of the live tasks and the objects agree. -/
structure Inv (s : System τ ν) : Prop where
  small : s.kernel.count ≤ maxTasks
  ttys : ∀ t, s.kernel.Live t → (s.kernel.procs t).tty < ttyCount
  handles : ∀ t, s.kernel.Live t → ∀ i,
    (s.kernel.procs t).fds i = slotHandle ((s.records t).objects i)
  counts : Counts s.kernel.back s.total
  holds : ∀ t, s.kernel.Live t → ∀ i o, (s.records t).objects i = some o → Holds s.kernel.back o
  gens : ∀ t, s.kernel.Live t → ∀ i o g, s.records t i = some (o, g) → s.gen o = g

/-- The counters stay far from the limits of an `int`. -/
theorem Inv.total_lt (h : Inv s) (o : Object) : s.total o + 16 < 2 ^ 31 := by
  have hle := s.total_le o
  have hmul : maxFds * s.kernel.count ≤ maxFds * maxTasks := Nat.mul_le_mul_left _ h.small
  have hval : maxFds * maxTasks + 16 < 2 ^ 31 := by decide
  omega

/-- Descriptor `i` of task `t` is on record for `v`, and the backends are `b`. -/
def System.setSlot (s : System τ ν) (t : ℕ) (i : Fin maxFds) (v : Option (Object × ℕ))
    (b : Backends τ ν) : System τ ν :=
  { s with
    kernel := s.kernel.update t
      (Function.update (s.kernel.procs t).fds i (slotHandle (v.map Prod.fst))) b
    records := Function.update s.records t (Function.update (s.records t) i v) }

section Slot

variable {t : ℕ} {i : Fin maxFds} {v : Option (Object × ℕ)} {b : Backends τ ν}

theorem Kernel.update_live {k : Kernel τ ν} {fds : FdTable} {u : ℕ} :
    (k.update t fds b).Live u ↔ k.Live u := by
  by_cases hu : u = t
  · subst hu
    simp [Kernel.Live, Kernel.update]
  · simp [Kernel.Live, Kernel.update, Function.update_of_ne hu]

theorem Kernel.update_liveTasks {k : Kernel τ ν} {fds : FdTable} :
    (k.update t fds b).liveTasks = k.liveTasks := by
  ext u
  rw [Kernel.mem_liveTasks, Kernel.mem_liveTasks, Kernel.update_live]

theorem System.total_setSlot (ht : s.kernel.Live t) :
    (s.setSlot t i v b).total + slotCount ((s.records t).objects i) =
      s.total + slotCount (v.map Prod.fst) := by
  have hsum : (s.setSlot t i v b).total + (s.records t).count =
      s.total + Record.count (Function.update (s.records t) i v) :=
    System.total_update Kernel.update_liveTasks ht
  have hslot := (s.records t).count_update i v
  funext o
  have h1 := congrFun hsum o
  have h2 := congrFun hslot o
  simp only [Pi.add_apply] at h1 h2 ⊢
  omega

/-- Filling or clearing a slot, given that the counters follow. -/
theorem Inv.setSlot (h : Inv s) (ht : s.kernel.Live t)
    (hc : Counts b (s.setSlot t i v b).total) (hk : ∀ o, 0 < s.total o → Holds s.kernel.back o →
      Holds b o) (hv : ∀ o g, v = some (o, g) → Holds b o ∧ s.gen o = g) :
    Inv (s.setSlot t i v b) := by
  have hlive : ∀ u, (s.setSlot t i v b).kernel.Live u ↔ s.kernel.Live u :=
    fun u => Kernel.update_live
  refine ⟨h.small, fun u hu => ?_, fun u hu j => ?_, hc, fun u hu j o ho => ?_,
    fun u hu j o g ho => ?_⟩ <;> rw [hlive] at hu
  · by_cases he : u = t
    · subst he
      simpa [System.setSlot, Kernel.update] using h.ttys u hu
    · simpa [System.setSlot, Kernel.update, Function.update_of_ne he] using h.ttys u hu
  · by_cases he : u = t
    · subst he
      by_cases hj : j = i
      · subst hj
        simp [System.setSlot, Kernel.update, Record.objects]
      · simpa [System.setSlot, Kernel.update, Record.objects, Function.update_of_ne hj] using
          h.handles u hu j
    · simpa [System.setSlot, Kernel.update, Function.update_of_ne he] using h.handles u hu j
  · have hold : (s.records u).objects j = some o → Holds b o := fun hr =>
      hk o (System.total_pos.mpr ⟨u, hu, j, hr⟩) (h.holds u hu j o hr)
    by_cases he : u = t
    · subst he
      by_cases hj : j = i
      · subst hj
        simp only [System.setSlot, Record.objects, Function.update_self] at ho
        obtain ⟨⟨o', g⟩, hv', rfl⟩ := Option.map_eq_some_iff.mp ho
        exact (hv _ g hv').1
      · exact hold (by simpa [System.setSlot, Record.objects, Function.update_of_ne hj] using ho)
    · exact hold (by simpa [System.setSlot, Function.update_of_ne he] using ho)
  · by_cases he : u = t
    · subst he
      by_cases hj : j = i
      · subst hj
        simp only [System.setSlot, Function.update_self] at ho
        exact (hv o g ho).2
      · simp only [System.setSlot, Function.update_self, Function.update_of_ne hj] at ho
        exact h.gens u hu j o g ho
    · simp only [System.setSlot, Function.update_of_ne he] at ho
      exact h.gens u hu j o g ho

/-- New backends under the same tables. -/
theorem Inv.setBack (h : Inv s) (hc : Counts b s.total)
    (hk : ∀ o, 0 < s.total o → Holds s.kernel.back o → Holds b o) :
    Inv { s with kernel := { s.kernel with back := b } } :=
  ⟨h.small, h.ttys, h.handles, hc,
    fun u hu j o ho => hk o (System.total_pos.mpr ⟨u, hu, j, ho⟩) (h.holds u hu j o ho), h.gens⟩

theorem Inv.transfer {o : Object} (h : Inv s) (htr : Transfers s.kernel.back o b) :
    Inv { s with kernel := { s.kernel with back := b } } :=
  h.setBack (h.counts.congr htr.counter_eq) fun _ _ ho => ho.kept htr.kept

/-- A new incarnation of an object nobody holds. -/
theorem Inv.bump {o : Object} (h : Inv s) (hfree : o.counted = true → s.total o = 0) :
    Inv { s with gen := Vfs.bump s.gen o } := by
  refine ⟨h.small, h.ttys, h.handles, h.counts, h.holds, fun u hu j o' g ho' => ?_⟩
  show Vfs.bump s.gen o o' = g
  unfold Vfs.bump
  split_ifs with hcounted
  · have hne : o' ≠ o := by
      rintro rfl
      have hpos : 0 < s.total o' :=
        System.total_pos.mpr ⟨u, hu, j, by rw [Record.objects, ho']; rfl⟩
      have := hfree hcounted
      omega
    rw [Function.update_of_ne hne]
    exact h.gens u hu j o' g ho'
  · exact h.gens u hu j o' g ho'

theorem slotHandle_eq_empty {d : Option Object} : slotHandle d = emptyHandle ↔ d = none := by
  cases d with
  | none => simp [slotHandle]
  | some o => simpa [slotHandle] using o.handle_ne_empty

theorem fdSlot_eq_some {table : FdTable} {fd : ℤ} :
    fdSlot table fd = some i ↔ fd = i.val ∧ table i ≠ emptyHandle := by
  have hi : i.val < 16 := i.isLt
  simp only [fdSlot, maxFds]
  split_ifs with h he
  · simp only [false_iff, not_and]
    rintro rfl
    simpa using he
  · simp only [Option.some.injEq, Fin.ext_iff]
    refine ⟨fun hv => ⟨by omega, ?_⟩, fun hv => by omega⟩
    have : i = ⟨fd.toNat, by omega⟩ := Fin.ext hv.symm
    rwa [this]
  · simp only [false_iff, not_and]
    intro hfd
    omega

/-- A slot in use is on record for an object. -/
theorem Inv.record_of_ne (h : Inv s) (ht : s.kernel.Live t)
    (hne : (s.kernel.procs t).fds i ≠ emptyHandle) :
    ∃ o g, s.records t i = some (o, g) ∧ (s.kernel.procs t).fds i = o.handle := by
  rw [h.handles t ht i] at hne ⊢
  cases hr : s.records t i with
  | none => exact absurd (slotHandle_eq_empty.mpr (by rw [Record.objects, hr]; rfl)) hne
  | some v =>
    obtain ⟨o, g⟩ := v
    exact ⟨o, g, rfl, by rw [Record.objects, hr]; rfl⟩

theorem Inv.record_of_slot {fd : ℤ} (h : Inv s) (ht : s.kernel.Live t)
    (hfd : fdSlot (s.kernel.procs t).fds fd = some i) :
    fd = i.val ∧ ∃ o g, s.records t i = some (o, g) ∧ (s.kernel.procs t).fds i = o.handle := by
  obtain ⟨rfl, hne⟩ := fdSlot_eq_some.mp hfd
  exact ⟨rfl, h.record_of_ne ht hne⟩

theorem Inv.routes {o : Object} {g : ℕ} (h : Inv s) (ht : s.kernel.Live t)
    (hr : s.records t i = some (o, g)) : Routes s.kernel.back o := by
  have ho : (s.records t).objects i = some o := by rw [Record.objects, hr]; rfl
  exact h.counts.routes (System.total_pos.mpr ⟨t, ht, i, ho⟩) (h.holds t ht i o ho)

/-- Closing the object of a slot and clearing the slot. -/
theorem Inv.closeSlot {o : Object} {g : ℕ} (h : Inv s) (ht : s.kernel.Live t)
    (hr : s.records t i = some (o, g)) :
    (fileClose s.kernel.back o.handle).1 = 0 ∧
      Inv (s.setSlot t i none (fileClose s.kernel.back o.handle).2) := by
  have ho : (s.records t).objects i = some o := by rw [Record.objects, hr]; rfl
  have htotal : (s.setSlot t i none (fileClose s.kernel.back o.handle).2).total +
      slotCount (some o) = s.total := by
    rw [← ho, System.total_setSlot ht]
    exact add_slotCount_none
  have hlt := h.total_lt o
  have hcounts := h.counts
  rw [← htotal] at hcounts hlt
  rw [add_slotCount_self] at hlt
  obtain ⟨hret, hc, hk⟩ := fileClose_spec hcounts (by omega) (h.holds t ht i o ho)
  exact ⟨hret, h.setSlot ht hc (fun _ _ ho' => ho'.kept hk) fun _ _ hv => by cases hv⟩

theorem Record.set_val (r : Record) (i : Fin maxFds) (v : Option (Object × ℕ)) :
    r.set i.val v = Function.update r i v := by
  funext j
  by_cases hj : j = i
  · subst hj
    simp [Record.set]
  · have : (j.val : ℤ) ≠ i.val := fun he => hj (Fin.ext (by exact_mod_cast he))
    simp [Record.set, this, Function.update_of_ne hj]

theorem Record.set_neg (r : Record) {fd : ℤ} (hfd : fd < 0) (v : Option (Object × ℕ)) :
    r.set fd v = r := by
  funext j
  have : (j.val : ℤ) ≠ fd := by omega
  simp [Record.set, this]

theorem Kernel.update_self_table (k : Kernel τ ν) :
    k.update t (k.procs t).fds b = { k with back := b } := by
  simp [Kernel.update, Function.update_eq_self]

end Slot

/-! ## The calls -/

/-- The common end of `vfs_open` and `sys_socket`: install a new handle in the
    table, or close it when the table is full. -/
def installHandle (b : Backends τ ν) (table : FdTable) (handle : ℤ) :
    ℤ × FdTable × Backends τ ν :=
  if handle = emptyHandle then (-1, table, b)
  else
    let (fd, table) := vfsAttachHandle table handle
    if fd < 0 then (fd, table, (fileClose b handle).2) else (fd, table, b)

/-- A handle goes to an empty slot, or is closed because there is none. -/
theorem installHandle_cases (b : Backends τ ν) (table : FdTable) {handle : ℤ}
    (hne : handle ≠ emptyHandle) :
    (∃ i, table i = emptyHandle ∧
      installHandle b table handle = ((i.val : ℤ), Function.update table i handle, b)) ∨
    (∀ i, table i ≠ emptyHandle) ∧
      installHandle b table handle = (-1, table, (fileClose b handle).2) := by
  unfold installHandle vfsAttachHandle
  rw [if_neg hne]
  split
  · rename_i fd table' heq
    split at heq
    · rename_i i hfree
      cases heq
      refine .inl ⟨i, by simpa using List.find?_some hfree, ?_⟩
      rw [if_neg (by omega)]
    · rename_i hfull
      cases heq
      exact .inr ⟨fun i => by simpa using List.find?_eq_none.mp hfull i (List.mem_finRange i), rfl⟩

theorem vfsOpen_eq (b : Backends τ ν) (table : FdTable) (tty : ℤ) (path : Option (List Char))
    (found : Option DirEntry) :
    vfsOpen b table tty path found =
      installHandle (fileOpen b tty path found).2 table (fileOpen b tty path found).1 := rfl

theorem sysSocket_eq {b : Backends τ ν} {n : Object → ℕ} (h : Counts b n) (table : FdTable)
    (domain type protocol : ℤ) :
    sysSocket b table domain type protocol =
      installHandle { b with sockets := (socketCreate b.sockets domain type protocol).2 } table
        (slotHandle (designatedSocket b domain type protocol)) := by
  obtain ⟨hhandle, hopened⟩ := socketCreate_spec h domain type protocol
  unfold sysSocket installHandle
  rw [← hhandle]
  cases hd : designatedSocket b domain type protocol with
  | none =>
    rw [hd] at hhandle
    have hempty : (socketCreate b.sockets domain type protocol).1 = emptyHandle := hhandle
    simp only [hempty, socketHandleValid_empty, Bool.false_eq_true, if_false, if_true]
  | some o =>
    obtain ⟨i, -, rfl⟩ : ∃ i, firstFreeSocket b.sockets = some i ∧ Object.socket i = o := by
      unfold designatedSocket at hd
      split_ifs at hd
      exact Option.map_eq_some_iff.mp hd
    rw [hd] at hhandle hopened
    simp only [slotHandle] at hhandle
    have hne : (socketCreate b.sockets domain type protocol).1 ≠ emptyHandle :=
      hhandle ▸ (Object.socket i).handle_ne_empty
    have hroutes : Routes { b with sockets := (socketCreate b.sockets domain type protocol).2 }
        (.socket i) :=
      hopened.counts.routes (by rw [add_slotCount_self]; omega) fun _ ho => by cases ho
    have hvalid := hroutes.valid_socket
    rw [← hhandle] at hvalid
    simp only [hvalid, if_true, hne, if_false, fileClose]

/-- Installing a reference that has just been handed out keeps the invariant. -/
theorem Inv.install {t : ℕ} {b : Backends τ ν} {d : Option Object} (h : Inv s)
    (ht : s.kernel.Live t) (ho : Opened s.kernel.back b s.total d)
    (hclear : ∀ port, 0 < s.total (.udp port) ∨ d = some (.udp port) → UdpClear b port) :
    Inv ⟨s.kernel.update t (installHandle b (s.kernel.procs t).fds (slotHandle d)).2.1
        (installHandle b (s.kernel.procs t).fds (slotHandle d)).2.2,
      (s.opened t d (installHandle b (s.kernel.procs t).fds (slotHandle d)).1).1,
      (s.opened t d (installHandle b (s.kernel.procs t).fds (slotHandle d)).1).2⟩ := by
  have hk : ∀ o, 0 < s.total o → Holds s.kernel.back o → Holds b o := by
    rintro o hpos hh port rfl
    exact ⟨(hh port rfl).1, ho.bound port (hh port rfl).2.1, hclear port (.inl hpos)⟩
  cases d with
  | none =>
    have hcounts := ho.counts
    rw [add_slotCount_none] at hcounts
    simp only [installHandle, slotHandle, if_true, System.opened, Kernel.update_self_table]
    exact h.setBack hcounts hk
  | some o =>
    have hholds : Holds b o := by
      rintro port rfl
      exact ⟨(ho.udp port rfl).1, (ho.udp port rfl).2, hclear port (.inr rfl)⟩
    have hbump := h.bump (ho.fresh o rfl)
    have hne : slotHandle (some o) ≠ emptyHandle := o.handle_ne_empty
    obtain ⟨i, hi, heq⟩ | ⟨-, heq⟩ := installHandle_cases b (s.kernel.procs t).fds hne
    · have hslot : (s.records t).objects i = none :=
        slotHandle_eq_empty.mp (h.handles t ht i ▸ hi)
      have htotal : (System.setSlot { s with gen := Vfs.bump s.gen o } t i
          (some (o, Vfs.bump s.gen o o)) b).total = s.total + slotCount (some o) := by
        have hsum := System.total_setSlot (s := { s with gen := Vfs.bump s.gen o }) (i := i)
          (v := some (o, Vfs.bump s.gen o o)) (b := b) ht
        rwa [hslot, add_slotCount_none] at hsum
      have hcounts : Counts b (System.setSlot { s with gen := Vfs.bump s.gen o } t i
          (some (o, Vfs.bump s.gen o o)) b).total := by
        rw [htotal]
        exact ho.counts
      have hinv := hbump.setSlot ht hcounts hk fun o' g hv => by
        cases hv
        exact ⟨hholds, rfl⟩
      rw [heq]
      simp only [System.opened, Record.set_val]
      exact hinv
    · have hlt := h.total_lt o
      obtain ⟨-, hc, hkept⟩ := fileClose_spec ho.counts (by omega) hholds
      rw [heq]
      simp only [System.opened, Kernel.update_self_table,
        Record.set_neg _ (show (-1 : ℤ) < 0 by decide), Function.update_eq_self]
      exact hbump.setBack hc fun o' hpos hh => (hk o' hpos hh).kept hkept

section Calls

variable {t : ℕ}

/-- `sys_close`, with the record the observer keeps. -/
theorem Inv.sysClose (h : Inv s) (ht : s.kernel.Live t) (fd : ℤ) :
    Inv ⟨s.kernel.update t (Vfs.sysClose s.kernel.back (s.kernel.procs t).fds fd).2.1
        (Vfs.sysClose s.kernel.back (s.kernel.procs t).fds fd).2.2,
      (s.observe t (Vfs.sysClose s.kernel.back (s.kernel.procs t).fds fd).1 (.close fd)).1,
      (s.observe t (Vfs.sysClose s.kernel.back (s.kernel.procs t).fds fd).1 (.close fd)).2⟩ := by
  unfold Vfs.sysClose vfsClose
  by_cases hfd : fd > 2
  · simp only [hfd, if_true, System.observe, true_and]
    cases hslot : fdSlot (s.kernel.procs t).fds fd with
    | none =>
      simp only [Int.reduceNeg, Int.reduceEq, if_false, Kernel.update_self_table]
      exact h
    | some i =>
      obtain ⟨rfl, o, g, hr, hhandle⟩ := h.record_of_slot ht hslot
      obtain ⟨hret, hinv⟩ := h.closeSlot ht hr
      simp only [hhandle, hret, if_true, Record.set_val]
      exact hinv
  · simp only [hfd, if_false, System.observe, false_and, Kernel.update_self_table]
    exact h

/-- Another reference to the object of slot `i` in the empty slot `j`. -/
theorem Inv.dupSlot {i j : Fin maxFds} {o : Object} {g : ℕ} (h : Inv s) (ht : s.kernel.Live t)
    (hi : s.records t i = some (o, g)) (hj : s.records t j = none) :
    Inv (s.setSlot t j (some (o, g)) (dupHandle s.kernel.back o.handle)) := by
  have ho : (s.records t).objects i = some o := by rw [Record.objects, hi]; rfl
  have hlt := h.total_lt o
  have hholds := h.holds t ht i o ho
  obtain ⟨hc, hk⟩ := dupHandle_spec (d := some o) h.counts
    (fun o' ho' => by cases ho'; exact System.total_pos.mpr ⟨t, ht, i, ho⟩)
    (fun o' ho' => by cases ho'; omega) (fun o' ho' => by cases ho'; exact hholds)
  have htotal := System.total_setSlot (i := j) (v := some (o, g))
    (b := dupHandle s.kernel.back o.handle) ht
  have hslot : (s.records t).objects j = none := by rw [Record.objects, hj]; rfl
  rw [hslot, add_slotCount_none] at htotal
  have hcounts : Counts (dupHandle s.kernel.back o.handle)
      (s.setSlot t j (some (o, g)) (dupHandle s.kernel.back o.handle)).total := by
    rw [htotal]
    exact hc
  refine h.setSlot ht hcounts (fun _ _ ho' => ho'.kept hk) fun o' g' hv => ?_
  cases hv
  exact ⟨hholds.kept hk, h.gens t ht i o g hi⟩

theorem Record.get_val (r : Record) (i : Fin maxFds) : r.get i.val = r i := by
  have hi : i.val < 16 := i.isLt
  simp only [Record.get, maxFds]
  rw [dif_pos (by omega)]
  rfl

theorem System.setSlot_setSlot (s : System τ ν) (t : ℕ) (j : Fin maxFds)
    (v v' : Option (Object × ℕ)) (b b' : Backends τ ν) :
    (s.setSlot t j v b).setSlot t j v' b' = s.setSlot t j v' b' := by
  simp [System.setSlot, Kernel.update]

/-- Closing what a slot is on record for. -/
def closeSlot (b : Backends τ ν) : Option Object → Backends τ ν
  | none => b
  | some o => (objectClose b o).2

/-- The first half of `vfs_dup2`: the new descriptor is closed if it is in use. -/
theorem Inv.freeSlot (h : Inv s) (ht : s.kernel.Live t) (j : Fin maxFds) :
    (if (s.kernel.procs t).fds j ≠ emptyHandle then
        (vfsClose s.kernel.back (s.kernel.procs t).fds j.val).2
      else ((s.kernel.procs t).fds, s.kernel.back)) =
      (Function.update (s.kernel.procs t).fds j emptyHandle,
        Vfs.closeSlot s.kernel.back ((s.records t).objects j)) ∧
    Inv (s.setSlot t j none (Vfs.closeSlot s.kernel.back ((s.records t).objects j))) := by
  by_cases hj : (s.kernel.procs t).fds j = emptyHandle
  · have hobj : (s.records t).objects j = none := slotHandle_eq_empty.mp (h.handles t ht j ▸ hj)
    have hrj : s.records t j = none := by simpa [Record.objects] using hobj
    have hupdate : Function.update (s.kernel.procs t).fds j emptyHandle = (s.kernel.procs t).fds :=
      Function.update_eq_self_iff.mpr hj.symm
    have hsame : s.setSlot t j none s.kernel.back = s := by
      simp only [System.setSlot, Option.map_none, slotHandle, hupdate, Kernel.update_self_table]
      rw [← hrj, Function.update_eq_self, Function.update_eq_self]
    rw [if_neg (not_not.mpr hj), hobj, hupdate, Vfs.closeSlot, hsame]
    exact ⟨rfl, h⟩
  · have hslot : fdSlot (s.kernel.procs t).fds (j.val : ℤ) = some j :=
      fdSlot_eq_some.mpr ⟨rfl, hj⟩
    obtain ⟨-, o, g, hrj, hhandle⟩ := h.record_of_slot ht hslot
    obtain ⟨hret, hclosed⟩ := h.closeSlot ht hrj
    have hobj : (s.records t).objects j = some o := by rw [Record.objects, hrj]; rfl
    rw [if_pos hj, hobj, Vfs.closeSlot, ← fileClose_handle (h.routes ht hrj)]
    refine ⟨?_, hclosed⟩
    simp only [vfsClose, hslot, hhandle, hret, if_true]

/-- The ways through `vfs_dup2`. In the last one the old handle of `newfd` is
    closed first, if there is one. -/
theorem vfsDup2_cases (b : Backends τ ν) (table : FdTable) (tty oldfd newfd : ℤ) :
    vfsDup2 b table tty oldfd newfd = (-1, table, b) ∨
    (∃ i, fdSlot table oldfd = some i ∧ oldfd = newfd ∧
      vfsDup2 b table tty oldfd newfd = (newfd, table, b)) ∨
    ∃ i j, fdSlot table oldfd = some i ∧ newfd = (j.val : ℤ) ∧ i ≠ j ∧
      vfsDup2 b table tty oldfd newfd =
        let r := if table j ≠ emptyHandle then (vfsClose b table newfd).2 else (table, b)
        (newfd, Function.update r.1 j (r.1 i), dupHandle r.2 (r.1 i)) := by
  unfold vfsDup2
  cases hold : fdSlot table oldfd with
  | none => exact .inl rfl
  | some i =>
    obtain ⟨hoi, -⟩ := fdSlot_eq_some.mp hold
    dsimp only
    by_cases hnew : 0 ≤ newfd ∧ newfd < maxFds
    · rw [dif_pos hnew]
      by_cases heq : oldfd = newfd
      · rw [if_pos heq]
        exact .inr (.inl ⟨i, rfl, heq, rfl⟩)
      · rw [if_neg heq]
        by_cases htty : newfd ≤ 2 ∧ ∃ u, ttyHandleId (table i) = some u ∧ (u.val : ℤ) ≠ tty
        · rw [if_pos htty]
          exact .inl rfl
        · rw [if_neg htty]
          have hlt : newfd.toNat < maxFds := by omega
          have hij : i ≠ ⟨newfd.toNat, hlt⟩ := by
            intro hi
            have : i.val = newfd.toNat := congrArg Fin.val hi
            omega
          have hnat : newfd = (newfd.toNat : ℤ) := (Int.toNat_of_nonneg hnew.1).symm
          refine .inr (.inr ⟨i, ⟨newfd.toNat, hlt⟩, rfl, hnat, hij, ?_⟩)
          by_cases hocc : table ⟨newfd.toNat, hlt⟩ ≠ emptyHandle
          · rw [if_pos hocc, if_pos hocc, Function.update_self]
          · rw [if_neg hocc, if_neg hocc, Function.update_self]
    · rw [dif_neg hnew]
      exact .inl rfl

/-- `vfs_dup2`, with the record the observer keeps. -/
theorem Inv.vfsDup2 (h : Inv s) (ht : s.kernel.Live t) (oldfd newfd : ℤ) {ret : ℤ}
    {table : FdTable} {b : Backends τ ν}
    (hr : Vfs.vfsDup2 s.kernel.back (s.kernel.procs t).fds (s.kernel.procs t).tty oldfd newfd =
      (ret, table, b)) :
    Inv ⟨s.kernel.update t table b, (s.observe t ret (.dup2 oldfd newfd)).1,
      (s.observe t ret (.dup2 oldfd newfd)).2⟩ := by
  obtain heq | ⟨i, hi, rfl, heq⟩ | ⟨i, j, hi, rfl, hij, heq⟩ := vfsDup2_cases s.kernel.back
    (s.kernel.procs t).fds (s.kernel.procs t).tty oldfd newfd <;> rw [heq] at hr
  · cases hr
    simp only [System.observe, Kernel.update_self_table]
    rw [if_neg (by omega)]
    exact h
  · cases hr
    obtain ⟨rfl, -⟩ := fdSlot_eq_some.mp hi
    simp only [System.observe, Kernel.update_self_table, Record.get_val, Record.set_val,
      Function.update_eq_self, ite_self]
    exact h
  · obtain ⟨rfl, o, g, hri, hhandle⟩ := h.record_of_slot ht hi
    have hobs : s.observe t (j.val : ℤ) (.dup2 i.val j.val) =
        (Function.update s.records t (Function.update (s.records t) j (some (o, g))), s.gen) := by
      simp only [System.observe, Record.get_val, Record.set_val, hri]
      rw [if_pos ⟨trivial, by omega⟩]
    obtain ⟨hfree, hclosed⟩ := h.freeSlot ht j
    have hinv := hclosed.dupSlot (i := i) (j := j) (o := o) (g := g) (Kernel.update_live.mpr ht)
      (by simp [System.setSlot, Function.update_of_ne hij, hri]) (by simp [System.setSlot])
    rw [System.setSlot_setSlot] at hinv
    simp only [hfree, Function.update_of_ne hij, hhandle, Function.update_idem] at hr
    cases hr
    rw [hobs]
    exact hinv

/-- The kernel after task `t` has forked a child with the given table. -/
def Kernel.addTask (k : Kernel τ ν) (p : Proc) (b : Backends τ ν) : Kernel τ ν :=
  { procs := Function.update k.procs k.count p, count := k.count + 1, back := b }

theorem Kernel.addTask_live {k : Kernel τ ν} {fds : FdTable} {tty : ℤ} {b : Backends τ ν}
    {u : ℕ} : (k.addTask ⟨fds, tty, false⟩ b).Live u ↔ u = k.count ∨ k.Live u := by
  by_cases hu : u = k.count
  · subst hu
    simp [Kernel.Live, Kernel.addTask]
  · simp only [Kernel.Live, Kernel.addTask, Function.update_of_ne hu, hu, false_or]
    constructor
    · rintro ⟨hlt, he⟩
      exact ⟨by omega, he⟩
    · rintro ⟨hlt, he⟩
      exact ⟨by omega, he⟩

theorem System.total_addTask {fds : FdTable} {tty : ℤ} {b : Backends τ ν} {r : Record}
    {gen : Object → ℕ} :
    System.total ⟨s.kernel.addTask ⟨fds, tty, false⟩ b,
      Function.update s.records s.kernel.count r, gen⟩ = s.total + r.count := by
  have hlive : (s.kernel.addTask ⟨fds, tty, false⟩ b).liveTasks =
      insert s.kernel.count s.kernel.liveTasks := by
    ext u
    rw [Finset.mem_insert, Kernel.mem_liveTasks, Kernel.mem_liveTasks, Kernel.addTask_live]
  have hnot : s.kernel.count ∉ s.kernel.liveTasks := fun hm =>
    absurd (Kernel.mem_liveTasks.mp hm).1 (lt_irrefl _)
  have hrest : ∑ u ∈ s.kernel.liveTasks, (Function.update s.records s.kernel.count r u).count =
      ∑ u ∈ s.kernel.liveTasks, (s.records u).count :=
    Finset.sum_congr rfl fun u hu => by
      have hne : u ≠ s.kernel.count := fun he => hnot (he ▸ hu)
      rw [Function.update_of_ne hne]
  rw [System.total, System.total, hlive, Finset.sum_insert hnot]
  dsimp only
  rw [Function.update_self, hrest, add_comm]

theorem Inv.fork {fds : FdTable} {b : Backends τ ν} (h : Inv s) (ht : s.kernel.Live t)
    (hroom : s.kernel.count < maxTasks)
    (hx : vfsForkFds s.kernel.back (s.kernel.procs t).fds = (fds, b)) :
    Inv ⟨s.kernel.addTask ⟨fds, (s.kernel.procs t).tty, false⟩ b,
      Function.update s.records s.kernel.count (s.records t), s.gen⟩ := by
  have hmem : ∀ i ∈ List.finRange maxFds, ∀ o ∈ (s.records t).objects i,
      0 < s.total o ∧ Holds s.kernel.back o := fun i _ o ho =>
    ⟨System.total_pos.mpr ⟨t, ht, i, ho⟩, h.holds t ht i o ho⟩
  obtain ⟨hc, hk⟩ := forkLoop_spec (fun _ => 0) h.counts
    (fun i _ => h.handles t ht i) (fun i hi o ho => (hmem i hi o ho).1)
    (fun o => by
      have hle : tableCount (s.records t).objects (List.finRange maxFds) o ≤ 16 :=
        (s.records t).count_le o
      have := h.total_lt o
      omega)
    (fun i hi o ho => (hmem i hi o ho).2)
  rw [← vfsForkFds, hx] at hc hk
  have hold : ∀ u, (u = s.kernel.count ∨ s.kernel.Live u) → u ≠ s.kernel.count →
      s.kernel.Live u := fun u hu hne => hu.resolve_left hne
  refine ⟨hroom, fun u hu => ?_, fun u hu j => ?_, ?_, fun u hu j o ho => ?_,
    fun u hu j o g ho => ?_⟩
  · by_cases he : u = s.kernel.count
    · subst he
      simpa [Kernel.addTask] using h.ttys t ht
    · simpa [Kernel.addTask, Function.update_of_ne he] using
        h.ttys u (hold u (Kernel.addTask_live.mp hu) he)
  · by_cases he : u = s.kernel.count
    · subst he
      have hfds : fds = (s.kernel.procs t).fds := by
        rw [← vfsForkFds_table s.kernel.back (s.kernel.procs t).fds, hx]
      simpa [Kernel.addTask, hfds] using h.handles t ht j
    · simpa [Kernel.addTask, Function.update_of_ne he] using
        h.handles u (hold u (Kernel.addTask_live.mp hu) he) j
  · rw [System.total_addTask]
    exact hc
  · by_cases he : u = s.kernel.count
    · subst he
      exact (h.holds t ht j o (by simpa using ho)).kept hk
    · exact (h.holds u (hold u (Kernel.addTask_live.mp hu) he) j o
        (by simpa [Function.update_of_ne he] using ho)).kept hk
  · by_cases he : u = s.kernel.count
    · subst he
      exact h.gens t ht j o g (by simpa using ho)
    · exact h.gens u (hold u (Kernel.addTask_live.mp hu) he) j o g
        (by simpa [Function.update_of_ne he] using ho)

/-- The kernel after task `t` has exited. -/
def Kernel.endTask (k : Kernel τ ν) (t : ℕ) (fds : FdTable) (b : Backends τ ν) : Kernel τ ν :=
  { k with procs := Function.update k.procs t ⟨fds, (k.procs t).tty, true⟩, back := b }

theorem Kernel.endTask_live {k : Kernel τ ν} {fds : FdTable} {b : Backends τ ν} {u : ℕ} :
    (k.endTask t fds b).Live u ↔ u ≠ t ∧ k.Live u := by
  by_cases hu : u = t
  · subst hu
    simp [Kernel.Live, Kernel.endTask]
  · simp [Kernel.Live, Kernel.endTask, hu]

theorem System.total_endTask {fds : FdTable} {b : Backends τ ν} {r : Record} {gen : Object → ℕ}
    (ht : s.kernel.Live t) :
    System.total ⟨s.kernel.endTask t fds b, Function.update s.records t r, gen⟩ +
      (s.records t).count = s.total := by
  have hlive : (s.kernel.endTask t fds b).liveTasks = s.kernel.liveTasks.erase t := by
    ext u
    rw [Finset.mem_erase, Kernel.mem_liveTasks, Kernel.mem_liveTasks, Kernel.endTask_live]
  have hrest : ∑ u ∈ s.kernel.liveTasks.erase t, (Function.update s.records t r u).count =
      ∑ u ∈ s.kernel.liveTasks.erase t, (s.records u).count :=
    Finset.sum_congr rfl fun u hu => by rw [Function.update_of_ne (Finset.ne_of_mem_erase hu)]
  rw [System.total, System.total, hlive, hrest,
    Finset.sum_erase_add _ _ (Kernel.mem_liveTasks.mpr ht)]

theorem Inv.exit {fds : FdTable} {b : Backends τ ν} (h : Inv s) (ht : s.kernel.Live t)
    (hx : vfsExitFds s.kernel.back (s.kernel.procs t).fds = (fds, b)) :
    Inv ⟨s.kernel.endTask t fds b, Function.update s.records t fun _ => none, s.gen⟩ := by
  have hcounts := h.counts
  have hlt := h.total_lt
  have htotal : System.total ⟨s.kernel.endTask t fds b,
      Function.update s.records t fun _ => none, s.gen⟩ + (s.records t).count = s.total :=
    System.total_endTask ht
  rw [← htotal] at hcounts hlt
  obtain ⟨hc, hk⟩ := exitLoop_spec (s.kernel.procs t).fds hcounts (List.nodup_finRange maxFds)
    (fun i _ => h.handles t ht i)
    (fun o => by
      have := hlt o
      rw [Pi.add_apply, Record.count] at this
      omega)
    (fun i _ o ho => h.holds t ht i o ho)
  rw [← vfsExitFds, hx] at hc hk
  refine ⟨h.small, fun u hu => ?_, fun u hu j => ?_, hc, fun u hu j o ho => ?_,
    fun u hu j o g ho => ?_⟩ <;> obtain ⟨hne, hlive⟩ := Kernel.endTask_live.mp hu
  · simpa [Kernel.endTask, Function.update_of_ne hne] using h.ttys u hlive
  · simpa [Kernel.endTask, Function.update_of_ne hne] using h.handles u hlive j
  · exact (h.holds u hlive j o (by simpa [Function.update_of_ne hne] using ho)).kept hk
  · exact h.gens u hlive j o g (by simpa [Function.update_of_ne hne] using ho)

end Calls

/-! ## Runs -/

/-- The call does not let a `/dev/udp` terminal and a socket share a handle:
    the terminal of port `3072 + i` is opened only while socket `i` is free, and
    a socket call does not take a slot whose handle some descriptor holds. -/
def Clear (s : System τ ν) (a : ℕ × Call) : Prop :=
  match a.2 with
  | .open path _ => ∀ i : Fin socketMax,
      udpPathPort (normalizePath path) = some (3072 + i.val) →
        (s.kernel.back.sockets i).used = false
  | .socket _ _ _ => ∀ i, firstFreeSocket s.kernel.back.sockets = some i →
      ∀ t, s.kernel.Live t → ∀ fd, (s.kernel.procs t).fds fd ≠ socketHandleFromIndex i
  | _ => True

theorem designatedFile_eq_some {b : Backends τ ν} {path : Option (List Char)}
    {found : Option DirEntry} {o : Object} (h : designatedFile b path found = some o) :
    ∃ i, o = .file i := by
  unfold designatedFile at h
  split_ifs at h
  obtain ⟨i, -, rfl⟩ := Option.map_eq_some_iff.mp h
  exact ⟨i, rfl⟩

/-- An open designates a `/dev/udp` terminal only by its port, and never a
    socket. -/
theorem designated_eq_some {b : Backends τ ν} {tty : ℤ} {path : Option (List Char)}
    {found : Option DirEntry} {o : Object} (h : designated b tty path found = some o) :
    (∀ i, o ≠ .socket i) ∧
      ∀ port, o = .udp port → udpPathPort (normalizePath path) = some port := by
  have hfile : designatedFile b path found = some o → (∀ i, o ≠ .socket i) ∧
      ∀ port, o = .udp port → udpPathPort (normalizePath path) = some port := by
    intro hf
    obtain ⟨i, rfl⟩ := designatedFile_eq_some hf
    simp
  unfold designated at h
  dsimp only at h
  generalize (if pathEq (normalizePath path) "dev/cpuinfo" then
    firstFreeCpuinfo b.cpuinfoFiles else none) = cpuinfo at h
  split at h
  · cases h
    simp
  split at h
  · cases h
    simp
  split at h
  · cases h
    simp
  cases cpuinfo with
  | some i =>
    cases h
    simp
  | none =>
    dsimp only at h
    split at h
    · cases h
      simp
    split at h
    · rename_i port hport
      split at h
      · exact hfile h
      · cases h
        exact ⟨by simp, fun p hp => by cases hp; exact hport⟩
    · exact hfile h

theorem socketBind_spec (sockets : Sockets) (servers : Servers) (handle : ℤ) (port : ℕ)
    (i : Fin socketMax) :
    ((socketBind sockets servers handle port).2.1 i).used = (sockets i).used ∧
      ((socketBind sockets servers handle port).2.1 i).refs = (sockets i).refs := by
  unfold socketBind
  split
  · exact ⟨rfl, rfl⟩
  · rename_i j _
    dsimp only
    split_ifs
    · exact ⟨rfl, rfl⟩
    · exact ⟨rfl, rfl⟩
    · by_cases he : i = j
      · subst he
        simp
      · simp [Function.update_of_ne he]

theorem Inv.open {t : ℕ} {path : Option (List Char)} {found : Option DirEntry} (h : Inv s)
    (ht : s.kernel.Live t) (hc : Clear s (t, .open path found)) {fd : ℤ} {fds : FdTable}
    {b : Backends τ ν} (hr : vfsOpen s.kernel.back (s.kernel.procs t).fds (s.kernel.procs t).tty
      path found = (fd, fds, b)) :
    Inv ⟨s.kernel.update t fds b, (s.observe t fd (.open path found)).1,
      (s.observe t fd (.open path found)).2⟩ := by
  obtain ⟨hhandle, hopened⟩ := fileOpen_spec h.counts (h.ttys t ht) path found
  have hclear : ∀ port, 0 < s.total (.udp port) ∨
      designated s.kernel.back (s.kernel.procs t).tty path found = some (.udp port) →
      UdpClear (fileOpen s.kernel.back (s.kernel.procs t).tty path found).2 port := by
    intro port hport i hi
    rw [← Bool.not_eq_true]
    intro hu
    have hused : (s.kernel.back.sockets i).used = true := by
      obtain hu | hd := hopened.sockets i hu
      · exact hu
      · exact absurd rfl ((designated_eq_some hd).1 i)
    have hfree : (s.kernel.back.sockets i).used = false := by
      obtain hpos | hd := hport
      · obtain ⟨u, hu, j, ho⟩ := System.total_pos.mp hpos
        exact (h.holds u hu j _ ho port rfl).2.2 i hi
      · exact hc i (hi ▸ (designated_eq_some hd).2 port rfl)
    rw [hused] at hfree
    cases hfree
  have hinv := h.install ht hopened hclear
  rw [vfsOpen_eq, hhandle] at hr
  rw [hr] at hinv
  exact hinv

theorem Inv.socket {t : ℕ} {domain type protocol : ℤ} (h : Inv s) (ht : s.kernel.Live t)
    (hc : Clear s (t, .socket domain type protocol)) {fd : ℤ} {fds : FdTable} {b : Backends τ ν}
    (hr : sysSocket s.kernel.back (s.kernel.procs t).fds domain type protocol = (fd, fds, b)) :
    Inv ⟨s.kernel.update t fds b, (s.observe t fd (.socket domain type protocol)).1,
      (s.observe t fd (.socket domain type protocol)).2⟩ := by
  obtain ⟨-, hopened⟩ := socketCreate_spec h.counts domain type protocol
  have hsome : ∀ o, designatedSocket s.kernel.back domain type protocol = some o →
      ∃ i, firstFreeSocket s.kernel.back.sockets = some i ∧ Object.socket i = o := by
    intro o ho
    unfold designatedSocket at ho
    split_ifs at ho
    exact Option.map_eq_some_iff.mp ho
  have hclear : ∀ port, 0 < s.total (.udp port) ∨
      designatedSocket s.kernel.back domain type protocol = some (.udp port) →
      UdpClear { s.kernel.back with
        sockets := (socketCreate s.kernel.back.sockets domain type protocol).2 } port := by
    rintro port (hpos | hd) i hi
    · obtain ⟨u, hlive, j, ho⟩ := System.total_pos.mp hpos
      rw [← Bool.not_eq_true]
      intro hu
      obtain hu | hd := hopened.sockets i hu
      · have hfree := (h.holds u hlive j _ ho port rfl).2.2 i hi
        rw [hu] at hfree
        cases hfree
      · -- the slot taken would be the one whose handle this terminal has
        obtain ⟨k, hk, hki⟩ := hsome _ hd
        cases hki
        refine hc i hk u hlive j ?_
        rw [h.handles u hlive j, ho, hi]
        simp only [slotHandle, Object.handle, socketHandleFromIndex, devUdpBase, socketHandleBase]
        push_cast
        ring
    · obtain ⟨k, -, hk⟩ := hsome _ hd
      cases hk
  have hinv := h.install ht hopened hclear
  rw [sysSocket_eq h.counts] at hr
  rw [hr] at hinv
  exact hinv

theorem Inv.bind {handle ret : ℤ} {port : ℕ} {sockets : Sockets} {servers : Servers} (h : Inv s)
    (hr : socketBind s.kernel.back.sockets s.kernel.back.servers handle port =
      (ret, sockets, servers)) :
    Inv { s with kernel := { s.kernel with
      back := { s.kernel.back with sockets := sockets, servers := servers } } } := by
  have hb := socketBind_spec s.kernel.back.sockets s.kernel.back.servers handle port
  rw [hr] at hb
  dsimp only at hb
  refine h.setBack (h.counts.congr fun o => ?_) fun _ _ ho => ho.kept
    ⟨fun i hi => (hb i).1 ▸ hi, fun _ => id⟩
  cases o with
  | socket i => simp only [counter, (hb i).1, (hb i).2]
  | _ => rfl

section CallResults

variable {dev : Devices τ ν} {k k' : Kernel τ ν} {ret : ℤ}

theorem Kernel.call_read {fd : ℤ} {size dst : ℕ}
    (h : k.call dev t (.read fd size dst) = some (ret, k')) :
    k' = k ∨ ∃ i out b, fdSlot (k.procs t).fds fd = some i ∧
      fileRead dev k.back ((k.procs t).fds i) size dst = some (out, b) ∧
      k' = { k with back := b } := by
  cases hslot : fdSlot (k.procs t).fds fd with
  | none =>
    unfold Kernel.call at h
    simp only [hslot] at h
    cases h
    exact .inl rfl
  | some i =>
    unfold Kernel.call at h
    simp only [hslot] at h
    obtain ⟨⟨out, b⟩, hread, hk⟩ := Option.map_eq_some_iff.mp h
    cases hk
    exact .inr ⟨i, out, b, rfl, hread, rfl⟩

theorem Kernel.call_write {fd : ℤ} {src : ℕ} {data : List UInt8}
    (h : k.call dev t (.write fd src data) = some (ret, k')) :
    k' = k ∨ ∃ i, fdSlot (k.procs t).fds fd = some i ∧
      k' = { k with back := (fileWrite dev k.back ((k.procs t).fds i) src data).2 } := by
  cases hslot : fdSlot (k.procs t).fds fd with
  | none =>
    unfold Kernel.call at h
    simp only [hslot] at h
    cases h
    exact .inl rfl
  | some i =>
    unfold Kernel.call at h
    simp only [hslot] at h
    cases h
    exact .inr ⟨i, rfl, rfl⟩

theorem Kernel.call_fork (h : k.call dev t .fork = some (ret, k')) :
    ret = -1 ∧ k' = k ∨ k.count < maxTasks ∧ ret = k.count ∧
      k' = k.addTask ⟨(vfsForkFds k.back (k.procs t).fds).1, (k.procs t).tty, false⟩
        (vfsForkFds k.back (k.procs t).fds).2 := by
  unfold Kernel.call at h
  dsimp only at h
  split_ifs at h with hidle hroom
  · cases h
    exact .inl ⟨rfl, rfl⟩
  · cases h
    exact .inr ⟨hroom, rfl, rfl⟩

theorem Kernel.call_exit (h : k.call dev t .exit = some (ret, k')) :
    t = 0 ∧ k' = k ∨ t ≠ 0 ∧ k' = k.endTask t (vfsExitFds k.back (k.procs t).fds).1
      (vfsExitFds k.back (k.procs t).fds).2 := by
  unfold Kernel.call at h
  dsimp only at h
  split_ifs at h with hidle
  · cases h
    exact .inl ⟨hidle, rfl⟩
  · cases h
    exact .inr ⟨hidle, rfl⟩

end CallResults

/-- Every call that is `Clear` keeps the invariant. -/
theorem Inv.step {dev : Devices τ ν} {a : ℕ × Call} {s' : System τ ν} (h : Inv s)
    (hc : Clear s a) (hs : s.step dev a = some s') : Inv s' := by
  obtain ⟨t, c⟩ := a
  unfold System.step at hs
  split_ifs at hs with ht
  obtain ⟨⟨ret, k⟩, hcall, rfl⟩ := Option.map_eq_some_iff.mp hs
  dsimp only at ht hcall ⊢
  cases c with
  | «open» path found =>
    cases hcall
    exact h.open ht hc rfl
  | socket domain type protocol =>
    cases hcall
    exact h.socket ht hc rfl
  | bind fd port =>
    cases hcall
    exact h.bind rfl
  | read fd size dst =>
    obtain rfl | ⟨i, out, b, hslot, hread, rfl⟩ := Kernel.call_read hcall
    · exact h
    · obtain ⟨-, o, g, hr, hhandle⟩ := h.record_of_slot ht hslot
      rw [hhandle, fileRead_handle dev (h.routes ht hr)] at hread
      exact h.transfer (objectRead_transfers hread)
  | write fd src data =>
    obtain rfl | ⟨i, hslot, rfl⟩ := Kernel.call_write hcall
    · exact h
    · obtain ⟨-, o, g, hr, hhandle⟩ := h.record_of_slot ht hslot
      rw [hhandle, fileWrite_handle dev (h.routes ht hr)]
      exact h.transfer (objectWrite_transfers dev s.kernel.back src data o)
  | close fd =>
    cases hcall
    exact h.sysClose ht fd
  | dup2 oldfd newfd =>
    cases hcall
    exact h.vfsDup2 ht oldfd newfd rfl
  | fork =>
    obtain ⟨rfl, rfl⟩ | ⟨hroom, rfl, rfl⟩ := Kernel.call_fork hcall
    · exact h
    · exact h.fork ht hroom Prod.mk.eta.symm
  | exit =>
    obtain ⟨hidle, rfl⟩ | ⟨hidle, rfl⟩ := Kernel.call_exit hcall
    · simp only [System.observe, hidle, if_true]
      exact h
    · simp only [System.observe, hidle, if_false]
      exact h.exit ht Prod.mk.eta.symm

theorem Booted.live_lt (h : Booted s) {t : ℕ} (ht : s.kernel.Live t) : t < 2 := h.count ▸ ht.1

theorem Booted.objects (h : Booted s) {t : ℕ} (ht : s.kernel.Live t) {i : Fin maxFds} {o : Object}
    (ho : (s.records t).objects i = some o) : o = .tty 0 := by
  rw [Record.objects, h.records t (h.live_lt ht)] at ho
  split_ifs at ho
  · cases ho
    rfl
  · cases ho

theorem Booted.inv (h : Booted s) : Inv s where
  small := by rw [h.count]; decide
  ttys t ht := by
    rw [h.proc t (h.live_lt ht)]
    decide
  handles t ht i := by
    rw [h.proc t (h.live_lt ht), Record.objects, h.records t (h.live_lt ht)]
    simp only [vfsInitFds, vfsBindTty]
    split_ifs <;> rfl
  counts := by
    intro o used refs hc
    have hzero : used = false := by
      cases o with
      | cpuinfo i => cases hc; exact h.cpuinfo i
      | file i => cases hc; exact h.files i
      | socket i => cases hc; exact h.sockets i
      | _ => cases hc
    have hnone : ¬ 0 < s.total o := by
      intro hpos
      obtain ⟨t, ht, i, ho⟩ := System.total_pos.mp hpos
      rw [h.objects ht ho] at hc
      cases hc
    subst hzero
    exact ⟨⟨fun hf => (by cases hf), fun hpos => absurd hpos hnone⟩, fun hf => by cases hf⟩
  holds t ht i o ho port hp := by
    rw [h.objects ht ho] at hp
    cases hp
  gens t ht i o g ho := by
    rw [h.records t (h.live_lt ht)] at ho
    split_ifs at ho
    cases ho
    rfl

end Mboot.Vfs
