import Mboot.Vfs.Agreement

/-!
# Handle namespaces

`OwnObjects dev s`: every operation on a descriptor of a live task is the own
operation of the object that its open or socket call designated, in the same
incarnation, and changes no other object.

The ranges of handles are disjoint except for one overlap: the handle
`-1024 - P` of `/dev/udpP` is the handle `-4096 - i` of socket `i` when
`P = 3072 + i`, and the socket test comes first.

* `namespaces_never_alias`: runs whose calls are all `Clear` reach only states
  with `OwnObjects`.
* `udp_descriptor_closes_socket`: a run of two calls that reaches a state
  without it.
-/

namespace Mboot.Vfs

open Common Scheduler Fat16 Net

variable {τ ν : Type*} {s : System τ ν} {dev : Devices τ ν} {b : Backends τ ν} {t : ℕ}

/-! ## The property -/

/-- The operations on `handle` are those of the object `o`, and change no other
    object. -/
structure ActsOn (dev : Devices τ ν) (b : Backends τ ν) (handle : ℤ) (o : Object) : Prop where
  read : ∀ size dst, fileRead dev b handle size dst = objectRead dev b size dst o
  write : ∀ src data, fileWrite dev b handle src data = objectWrite dev b src data o
  close : fileClose b handle = objectClose b o
  dup : dupHandle b handle = objectDup b o
  read_frame : ∀ size dst out b', fileRead dev b handle size dst = some (out, b') →
    OnlyChanges b b' o
  write_frame : ∀ src data, OnlyChanges b (fileWrite dev b handle src data).2 o
  close_frame : OnlyChanges b (fileClose b handle).2 o
  dup_frame : OnlyChanges b (dupHandle b handle) o

/-- Another reference to what a slot is on record for. -/
def dupSlot (b : Backends τ ν) : Option Object → Backends τ ν
  | none => b
  | some o => objectDup b o

/-- `vfs_dup2` does nothing to the objects, or it closes the object of `newfd`
    and takes a reference to the object of `oldfd`. -/
def Dup2Own (s : System τ ν) (t : ℕ) (oldfd newfd : ℤ) : Prop :=
  (vfsDup2 s.kernel.back (s.kernel.procs t).fds (s.kernel.procs t).tty oldfd newfd).2.2 =
    s.kernel.back ∨
  ∃ (i j : Fin maxFds) (o : Object), oldfd = i.val ∧ newfd = j.val ∧
    (s.records t).objects i = some o ∧
    vfsDup2 s.kernel.back (s.kernel.procs t).fds (s.kernel.procs t).tty oldfd newfd =
      (newfd, Function.update (s.kernel.procs t).fds j o.handle,
        objectDup (closeSlot s.kernel.back ((s.records t).objects j)) o)

/-- The descriptors of the live tasks act on their own objects only.

    * `own`: a descriptor in use is on record for an object, in its current
      incarnation, and acts on it.
    * `dup2`: `vfs_dup2` touches the objects of its two descriptors only.
    * `fork`: `vfs_fork_fds` takes one reference for each slot of the table. -/
structure OwnObjects (dev : Devices τ ν) (s : System τ ν) : Prop where
  own : ∀ t, s.kernel.Live t → ∀ i, (s.kernel.procs t).fds i ≠ emptyHandle →
    ∃ o, s.records t i = some (o, s.gen o) ∧
      ActsOn dev s.kernel.back ((s.kernel.procs t).fds i) o
  dup2 : ∀ t, s.kernel.Live t → ∀ oldfd newfd, Dup2Own s t oldfd newfd
  fork : ∀ t, s.kernel.Live t →
    vfsForkFds s.kernel.back (s.kernel.procs t).fds =
      ((s.kernel.procs t).fds,
        (List.finRange maxFds).foldl (fun b i => dupSlot b ((s.records t).objects i))
          s.kernel.back)

/-! ## From the invariant -/

theorem Routes.actsOn {o : Object} (h : Routes b o) : ActsOn dev b o.handle o where
  read := fileRead_handle dev h
  write := fileWrite_handle dev h
  close := fileClose_handle h
  dup := dupHandle_handle h
  read_frame size dst out b' hread := by
    rw [fileRead_handle dev h] at hread
    exact (objectRead_transfers hread).onlyChanges
  write_frame src data := by
    rw [fileWrite_handle dev h]
    exact (objectWrite_transfers dev b src data o).onlyChanges
  close_frame := by
    rw [fileClose_handle h]
    exact objectClose_frame b o
  dup_frame := by
    rw [dupHandle_handle h]
    exact objectDup_frame b o

theorem objectDup_used (b : Backends τ ν) (o : Object) (i : Fin socketMax) :
    ((objectDup b o).sockets i).used = (b.sockets i).used := by
  by_cases ho : o = .socket i
  · subst ho
    rw [objectDup, socketDup, socketFromHandle_socket]
    split_ifs
    · simp
    · rfl
  · rw [(objectDup_frame b o).socket i ho]

/-- References leave the dispatch as it is. -/
theorem Routes.objectDup {o : Object} (h : Routes b o) (o' : Object) :
    Routes (Vfs.objectDup b o') o := by
  cases o with
  | socket i => exact (objectDup_used b o' i).trans h
  | udp port => exact ⟨h.1, fun i hi => (objectDup_used b o' i).trans (h.2 i hi)⟩
  | _ => exact trivial

theorem dupHandle_slot {d : Option Object} (h : ∀ o ∈ d, Routes b o) :
    dupHandle b (slotHandle d) = dupSlot b d := by
  cases d with
  | none => exact dupHandle_empty b
  | some o => exact dupHandle_handle (h o rfl)

/-- The loop of `vfs_fork_fds` takes the references slot by slot. -/
theorem forkLoop_eq {parent : FdTable} {d : Fin maxFds → Option Object}
    {is : List (Fin maxFds)} (child : FdTable)
    (hparent : ∀ i, parent i = slotHandle (d i)) (hr : ∀ i, ∀ o ∈ d i, Routes b o) :
    (forkLoop parent is child b).2 = is.foldl (fun b i => dupSlot b (d i)) b := by
  induction is generalizing b child with
  | nil => rfl
  | cons i is ih =>
    rw [forkLoop, Function.update_self, hparent i, dupHandle_slot (hr i), List.foldl_cons]
    refine ih _ fun j o ho => ?_
    cases hd : d i with
    | none => exact hr j o ho
    | some o' => exact (hr j o ho).objectDup o'

theorem Inv.slot_routes (h : Inv s) (ht : s.kernel.Live t) (i : Fin maxFds) :
    ∀ o ∈ (s.records t).objects i, Routes s.kernel.back o := by
  intro o ho
  obtain ⟨⟨o, g⟩, hr, rfl⟩ := Option.map_eq_some_iff.mp ho
  exact h.routes ht hr

theorem Inv.own (h : Inv s) (ht : s.kernel.Live t) (i : Fin maxFds)
    (hne : (s.kernel.procs t).fds i ≠ emptyHandle) :
    ∃ o, s.records t i = some (o, s.gen o) ∧
      ActsOn dev s.kernel.back ((s.kernel.procs t).fds i) o := by
  obtain ⟨o, hr, hhandle, -⟩ := h.noStale t ht i hne
  rw [hhandle]
  exact ⟨o, hr, (h.routes ht hr).actsOn⟩

theorem Inv.dup2Own (h : Inv s) (ht : s.kernel.Live t) (oldfd newfd : ℤ) :
    Dup2Own s t oldfd newfd := by
  obtain heq | ⟨i, -, -, heq⟩ | ⟨i, j, hi, rfl, hij, heq⟩ := vfsDup2_cases s.kernel.back
    (s.kernel.procs t).fds (s.kernel.procs t).tty oldfd newfd
  · exact .inl (by rw [heq])
  · exact .inl (by rw [heq])
  · obtain ⟨rfl, o, g, hri, hhandle⟩ := h.record_of_slot ht hi
    have hoi : (s.records t).objects i = some o := by rw [Record.objects, hri]; rfl
    obtain ⟨hfree, hclosed⟩ := h.freeSlot ht j
    -- closing the slot `j` leaves the object of slot `i` in place, also when it is the same
    have hroutes : Routes (Vfs.closeSlot s.kernel.back ((s.records t).objects j)) o :=
      hclosed.routes (i := i) (o := o) (g := g) (Kernel.update_live.mpr ht)
        (by simp [System.setSlot, Function.update_of_ne hij, hri])
    refine .inr ⟨i, j, o, rfl, rfl, hoi, ?_⟩
    rw [heq, hfree]
    simp only [Function.update_of_ne hij, hhandle, Function.update_idem, dupHandle_handle hroutes]

theorem Inv.ownObjects (h : Inv s) : OwnObjects dev s where
  own _ ht i hne := h.own ht i hne
  dup2 _ ht oldfd newfd := h.dup2Own ht oldfd newfd
  fork t ht := Prod.ext (vfsForkFds_table _ _)
    (forkLoop_eq _ (h.handles t ht) (h.slot_routes ht))

/-- From boot, as long as no call makes a `/dev/udp` terminal and a socket in
    use share a handle, every descriptor acts on its own object only. -/
theorem namespaces_never_alias {s₀ : System τ ν} (h0 : Booted s₀)
    (hr : Reachable (restrict (Steps (System.step dev)) Clear) s₀ s) : OwnObjects dev s := by
  have hinv : Inv s :=
    hr.invariant (P := Inv) h0.inv fun _ _ _ hi hs => hi.step hs.1 hs.2
  exact hinv.ownObjects

instance : ∀ (s : System τ ν) (a : ℕ × Call), Decidable (Clear s a)
  | s, (_, .open path _) => inferInstanceAs (Decidable (∀ i : Fin socketMax,
      udpPathPort (normalizePath path) = some (3072 + i.val) →
        (s.kernel.back.sockets i).used = false))
  | s, (_, .socket _ _ _) => decidable_of_iff
      (∀ i, firstFreeSocket s.kernel.back.sockets = some i → ∀ t < s.kernel.count,
        s.kernel.Live t → ∀ fd, (s.kernel.procs t).fds fd ≠ socketHandleFromIndex i)
      ⟨fun h i hi t ht => h i hi t ht.1 ht, fun h i hi t _ ht => h i hi t ht⟩
  | _, (_, .bind _ _) | _, (_, .read _ _ _) | _, (_, .write _ _ _) | _, (_, .close _)
  | _, (_, .dup2 _ _) | _, (_, .fork) | _, (_, .exit) => isTrue trivial

/-- `init` opens the terminal of the port whose handle is that of the second
    socket, makes the first socket, duplicates the terminal and forks. -/
def clearTrace : List (ℕ × Call) :=
  [(1, .open (some "/dev/udp3073".toList) none), (1, .socket 2 2 0), (1, .dup2 3 5), (1, .fork)]

theorem namespaces_never_alias_udp3073 :
    ∃ s, Reachable (restrict (Steps (System.step idleDevices)) Clear) bootSystem s ∧
      OwnObjects idleDevices s ∧ s.records 2 5 = some (.udp 3073, 0) ∧
      s.records 2 4 = some (.socket 0, 1) := by
  obtain ⟨s, hrun, hrec⟩ : ∃ s, Run (restrict (Steps (System.step idleDevices)) Clear) bootSystem
      clearTrace s ∧ s.records 2 5 = some (.udp 3073, 0) ∧ s.records 2 4 = some (.socket 0, 1) :=
    exists_run_restrict (by decide +kernel)
  exact ⟨s, ⟨_, hrun⟩, namespaces_never_alias bootSystem_booted ⟨_, hrun⟩, hrec⟩

/-! ## The overlap -/

/-- `init` makes a socket and opens the terminal of port 3072. -/
def aliasTrace : List (ℕ × Call) :=
  [(1, .socket 2 2 0), (1, .open (some "/dev/udp3072".toList) none)]

/-- Descriptor 4 stands for a `/dev/udp` terminal, yet closing it closes the
    socket of descriptor 3. -/
theorem udp_descriptor_closes_socket :
    ∃ s, Reachable (Steps (System.step idleDevices)) bootSystem s ∧
      s.records 1 3 = some (.socket 0, 1) ∧ s.records 1 4 = some (.udp 3072, 0) ∧
      (s.kernel.back.sockets 0).used = true ∧
      ((fileClose s.kernel.back ((s.kernel.procs 1).fds 4)).2.sockets 0).used = false ∧
      ¬ OwnObjects idleDevices s := by
  obtain ⟨s, hrun, hsocket, hudp, hused, hfreed, hlive, hhandle⟩ : ∃ s,
      Run (Steps (System.step idleDevices)) bootSystem aliasTrace s ∧
      s.records 1 3 = some (.socket 0, 1) ∧ s.records 1 4 = some (.udp 3072, 0) ∧
      (s.kernel.back.sockets 0).used = true ∧
      ((fileClose s.kernel.back ((s.kernel.procs 1).fds 4)).2.sockets 0).used = false ∧
      s.kernel.Live 1 ∧ (s.kernel.procs 1).fds 4 ≠ emptyHandle :=
    exists_run (by decide +kernel)
  refine ⟨s, ⟨_, hrun⟩, hsocket, hudp, hused, hfreed, fun hown => ?_⟩
  obtain ⟨o, hr, hacts⟩ := hown.own 1 hlive 4 hhandle
  have ho : o = .udp 3072 := by
    rw [hudp] at hr
    exact (Prod.mk.inj (Option.some.inj hr)).1.symm
  have hsame := hacts.close_frame.socket 0 (by rw [ho]; simp)
  rw [hsame, hused] at hfreed
  cases hfreed

end Mboot.Vfs
