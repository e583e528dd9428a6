import Mboot.Vfs.Agreement

/-!
# The controlling terminal

The terminal of a task is its field `tty`, and descriptors 0, 1 and 2 start out
on it. The field is written by `ioctl(TIOCSCTTY)`, which checks its argument,
and by `exec`, which takes any value in `ESI`; the three descriptors are written
by both, by `dup2`, `fork` and `exit`, and by `open` when one of them is empty.
A task goes on after `exit` until it is switched away, with all its descriptors
empty, so the calls of tasks that have exited are part of the system here.

* `controlling_tty_invariant`: as long as no successful `exec` names a terminal
  that does not exist and no `open` puts another terminal into an empty standard
  descriptor, every task has a valid terminal and no standard descriptor is on
  another one.
* `exec_sets_invalid_tty`: one `exec` with `ESI = 7` breaks it.
-/

namespace Mboot.Vfs

open Common Scheduler Fat16 Net

variable {τ ν : Type*}

/-! ## `ioctl` and `exec` -/

/-- `TIOCSCTTY` (inc/dev/tty.h). -/
abbrev tiocsctty : UInt32 := 0x540E

/-- `scheduler_set_tty` (scheduler.c lines 238–248). -/
def schedulerSetTty (p : Proc) (tty : ℤ) : ℤ × Proc :=
  if 0 ≤ tty ∧ tty < ttyCount then (0, { p with tty := tty, fds := vfsBindTty p.fds tty })
  else (-1, p)

/-- `sys_ioctl` (idt.c lines 102–117). The descriptor argument is not used. -/
def sysIoctl (p : Proc) (request arg : UInt32) : ℤ × Proc :=
  if request = tiocsctty then schedulerSetTty p (int32 arg.toNat) else (-1, p)

/-- `fat16_get_size` (fat16.c line 403). -/
def fat16GetSize (files : OpenFiles) (fd : ℤ) : ℕ :=
  if h : 0 ≤ fd ∧ fd < maxOpenFiles then (files ⟨fd.toNat, toNat_lt_of_range h⟩).size else 0

/-- The file accesses of `exec_elf` (elf.c lines 94–107): whether the file was
    found, and the backends afterwards. The file is read into a buffer at
    `buf`. -/
def execElf (dev : Devices τ ν) (b : Backends τ ν) (currentTty : ℤ) (path : Option (List Char))
    (found : Option DirEntry) (buf : ℕ) : Option (Bool × Backends τ ν) :=
  let (file, b) := fileOpen b currentTty path found
  if file < 0 then some (false, b)
  else
    (fileRead dev b file (fat16GetSize b.openFiles file) buf).map fun (_, b) =>
      (true, (fileClose b file).2)

/-- The commit of `scheduler_exec_replace` (scheduler.c lines 210–213). -/
def execCommit (p : Proc) (tty : ℤ) : Proc :=
  if tty ≥ 0 then { p with tty := tty, fds := vfsBindTty p.fds tty } else p

/-- The calls that matter for the terminal. In an `exec`, `loads` says whether
    the file is an ELF image with a loadable segment, and `esi` is the terminal
    argument. -/
inductive TtyCall
  | vfs (c : Call)
  | ioctl (request arg : UInt32)
  | exec (path : Option (List Char)) (found : Option DirEntry) (buf : ℕ) (loads : Bool)
      (esi : UInt32)

/-- A call of task `t`. The idle task cannot `exec` (scheduler.c line 88). -/
def Kernel.ttyCall (dev : Devices τ ν) (k : Kernel τ ν) (t : ℕ) : TtyCall → Option (Kernel τ ν)
  | .vfs c => (k.call dev t c).map Prod.snd
  | .ioctl request arg =>
    some { k with procs := Function.update k.procs t (sysIoctl (k.procs t) request arg).2 }
  | .exec path found buf loads esi =>
    (execElf dev k.back (k.procs t).tty path found buf).map fun (read, b) =>
      if read ∧ loads ∧ t ≠ 0 then
        { k with
          procs := Function.update k.procs t (execCommit (k.procs t) (int32 esi.toNat)), back := b }
      else { k with back := b }

/-- One call by any task. -/
def Kernel.ttyStep (dev : Devices τ ν) (k : Kernel τ ν) (a : ℕ × TtyCall) : Option (Kernel τ ν) :=
  if a.1 < k.count then k.ttyCall dev a.1 a.2 else none

/-- The calls that keep the terminal. Each clause looks at the state before the
    call:
    * an `exec` that replaces the image names an existing terminal, or none;
    * an `open` of another terminal does not find a standard descriptor empty. -/
def KeepsTty (k : Kernel τ ν) (a : ℕ × TtyCall) : Prop :=
  match a.2 with
  | .exec _ _ _ loads esi => loads = true → int32 esi.toNat < ttyCount
  | .vfs (.open path _) =>
    (∃ i : Fin maxFds, i.val < 3 ∧ (k.procs a.1).fds i = emptyHandle) →
      let id := ttyPathId (k.procs a.1).tty (normalizePath path)
      id < 0 ∨ id = (k.procs a.1).tty
  | _ => True

instance (k : Kernel τ ν) (a : ℕ × TtyCall) : Decidable (KeepsTty k a) := by
  unfold KeepsTty
  split <;> infer_instance

/-! ## Tables -/

/-- The terminal exists, and standard descriptors on a terminal are on this one. -/
structure TtyOk (p : Proc) : Prop where
  range : 0 ≤ p.tty ∧ p.tty < ttyCount
  own : ∀ i : Fin maxFds, i.val < 3 → ∀ id, ttyHandleId (p.fds i) = some id → (id.val : ℤ) = p.tty

variable {p : Proc} {b : Backends τ ν}

theorem ttyHandleId_empty : ttyHandleId emptyHandle = none :=
  ttyHandleId_eq_none (Or.inl (by decide))

/-- A store to one slot. -/
theorem TtyOk.set (h : TtyOk p) (i : Fin maxFds) {handle : ℤ}
    (hh : i.val < 3 → ∀ id, ttyHandleId handle = some id → (id.val : ℤ) = p.tty) :
    TtyOk { p with fds := Function.update p.fds i handle } := by
  refine ⟨h.range, fun j hj id hid => ?_⟩
  dsimp only at hid ⊢
  by_cases hji : j = i
  · subst hji
    rw [Function.update_self] at hid
    exact hh hj id hid
  · rw [Function.update_of_ne hji] at hid
    exact h.own j hj id hid

theorem TtyOk.clear (h : TtyOk p) (i : Fin maxFds) :
    TtyOk { p with fds := Function.update p.fds i emptyHandle } := by
  refine h.set i fun _ id hid => ?_
  rw [ttyHandleId_empty] at hid
  cases hid

/-- `vfs_bind_tty` with a valid terminal. -/
theorem TtyOk.bind (p : Proc) {tty : ℤ} (h0 : 0 ≤ tty) (h1 : tty < ttyCount) :
    TtyOk { p with tty := tty, fds := vfsBindTty p.fds tty } := by
  refine ⟨⟨h0, h1⟩, fun i hi id hid => ?_⟩
  have hslot : vfsBindTty p.fds tty i = devTtyBase - tty := by
    simp only [vfsBindTty]
    rw [if_pos hi, if_pos ⟨h0, h1⟩]
  dsimp only at hid ⊢
  rw [hslot, ttyHandleId] at hid
  split_ifs at hid with hr
  obtain rfl := Option.some.inj hid
  show ((devTtyBase - (devTtyBase - tty)).toNat : ℤ) = tty
  omega

theorem TtyOk.init (exited : Bool) : TtyOk ⟨vfsInitFds 0, 0, exited⟩ :=
  TtyOk.bind ⟨fun _ => emptyHandle, 0, exited⟩ le_rfl (by decide)

/-! ## The calls -/

theorem cpuinfoOpen_handle (b : Backends τ ν) (name : Option (List Char)) :
    -32 < (cpuinfoOpen b name).1 := by
  unfold cpuinfoOpen
  split_ifs
  · show (-32 : ℤ) < -1
    decide
  · split
    · show (-32 : ℤ) < -1
      decide
    · next i _ =>
      show (-32 : ℤ) < -8 - (i.val : ℤ)
      have := i.isLt
      simp only [cpuinfoOpenFiles] at this
      omega

theorem udpTtyOpen_handle (b : Backends τ ν) (name : Option (List Char)) :
    -32 < (udpTtyOpen b name).1 ∨ (udpTtyOpen b name).1 ≤ -36 := by
  obtain ⟨-, -, -, -, hport⟩ := udpTtyOpen_spec b name
  by_cases hempty : (udpTtyOpen b name).1 = emptyHandle
  · left
    rw [hempty]
    decide
  · right
    obtain ⟨port, -, hhandle, -⟩ := hport hempty
    rw [hhandle]
    show (-1024 : ℤ) - (port : ℤ) ≤ -36
    omega

theorem openFile_handle (b : Backends τ ν) (path : Option (List Char)) (found : Option DirEntry) :
    -32 < (openFile b path found).1 := by
  have hfat : -32 < (fat16Open b.openFiles found).1 := by
    unfold fat16Open
    split
    · show (-32 : ℤ) < -1
      decide
    · split
      · show (-32 : ℤ) < -1
        decide
      · next i _ =>
        show (-32 : ℤ) < (i.val : ℤ)
        omega
  unfold openFile
  split_ifs
  · show (-32 : ℤ) < -1
    decide
  · exact hfat

section Open

variable {tty : ℤ} {path : Option (List Char)} {found : Option DirEntry} {id : Fin ttyCount}

theorem not_ttyHandle {handle : ℤ} (hr : -32 < handle ∨ handle ≤ -36) :
    ttyHandleId handle ≠ some id := by
  rw [ttyHandleId_eq_none hr]
  simp

theorem deviceOpen_ttyHandle (h : ttyHandleId (deviceOpen b tty path).1 = some id) :
    ttyPathId tty (normalizePath path) = id.val := by
  unfold deviceOpen at h
  dsimp only at h
  split_ifs at h with h1 h2 h3 hcpu htty
  · exact absurd h (not_ttyHandle (Or.inl (show (-32 : ℤ) < -2 by decide)))
  · exact absurd h (not_ttyHandle (Or.inl (show (-32 : ℤ) < -3 by decide)))
  · exact absurd h (not_ttyHandle (Or.inl (show (-32 : ℤ) < -4 by decide)))
  · exact absurd h (not_ttyHandle (Or.inl (cpuinfoOpen_handle b _)))
  · simp only [ttyHandleId] at h
    split_ifs at h with hr
    obtain rfl := Option.some.inj h
    show ttyPathId tty (normalizePath path) =
      ((devTtyBase - (devTtyBase - ttyPathId tty (normalizePath path))).toNat : ℤ)
    omega
  · exact absurd h (not_ttyHandle (udpTtyOpen_handle _ _))

/-- An open returns the handle of a terminal only for the name of this terminal. -/
theorem fileOpen_ttyHandle (h : ttyHandleId (fileOpen b tty path found).1 = some id) :
    ttyPathId tty (normalizePath path) = id.val := by
  rcases hdev : deviceOpen b tty path with ⟨handle, b'⟩
  by_cases hempty : handle = emptyHandle
  · subst hempty
    rw [fileOpen_of_empty hdev] at h
    exact absurd h (not_ttyHandle (Or.inl (openFile_handle b' path found)))
  · rw [fileOpen_of_device hdev hempty] at h
    exact deviceOpen_ttyHandle (by rw [hdev]; exact h)

end Open

/-- An open with no empty standard descriptor, or of the task's own terminal. -/
theorem TtyOk.open (h : TtyOk p) (path : Option (List Char)) (found : Option DirEntry)
    (hsafe : (∃ i : Fin maxFds, i.val < 3 ∧ p.fds i = emptyHandle) →
      ttyPathId p.tty (normalizePath path) < 0 ∨ ttyPathId p.tty (normalizePath path) = p.tty) :
    TtyOk { p with fds := (vfsOpen b p.fds p.tty path found).2.1 } := by
  rw [vfsOpen_eq]
  by_cases hne : (fileOpen b p.tty path found).1 = emptyHandle
  · rw [installHandle, if_pos hne]
    exact h
  obtain ⟨i, hfree, heq⟩ | ⟨-, heq⟩ :=
    installHandle_cases (fileOpen b p.tty path found).2 p.fds hne
  · rw [heq]
    refine h.set i fun hi id hid => ?_
    have hpath := fileOpen_ttyHandle hid
    rcases hsafe ⟨i, hi, hfree⟩ with hneg | hown
    · omega
    · rw [← hpath, hown]
  · rw [heq]
    exact h

/-- A handle that is not a terminal's may go into any slot. -/
theorem TtyOk.attach (h : TtyOk p) {handle : ℤ} (hh : ttyHandleId handle = none) :
    TtyOk { p with fds := (vfsAttachHandle p.fds handle).2 } := by
  unfold vfsAttachHandle
  split
  · next i _ =>
    refine h.set i fun _ id hid => ?_
    rw [hh] at hid
    cases hid
  · exact h

theorem TtyOk.socket (h : TtyOk p) (domain type protocol : ℤ) :
    TtyOk { p with fds := (sysSocket b p.fds domain type protocol).2.1 } := by
  have hattach : socketHandleValid (socketCreate b.sockets domain type protocol).2
      (socketCreate b.sockets domain type protocol).1 = true →
      TtyOk { p with
        fds := (vfsAttachHandle p.fds (socketCreate b.sockets domain type protocol).1).2 } := by
    intro hvalid
    obtain ⟨i, hi, -⟩ := socketHandleValid_iff.mp hvalid
    refine h.attach (ttyHandleId_eq_none (Or.inr ?_))
    rw [hi]
    show (-4096 : ℤ) - (i.val : ℤ) ≤ -36
    omega
  unfold sysSocket
  dsimp only
  split_ifs with hvalid hfull
  · exact hattach hvalid
  · exact hattach hvalid
  · exact h

theorem TtyOk.close (h : TtyOk p) (fd : ℤ) :
    TtyOk { p with fds := (vfsClose b p.fds fd).2.1 } := by
  unfold vfsClose
  split
  · exact h
  · next i _ =>
    dsimp only
    split_ifs
    · exact h.clear i
    · exact h

theorem TtyOk.sysClose (h : TtyOk p) (fd : ℤ) :
    TtyOk { p with fds := (Vfs.sysClose b p.fds fd).2.1 } := by
  unfold Vfs.sysClose
  split_ifs
  · exact h.close fd
  · exact h

/-- `vfs_close` leaves the other slots alone. -/
theorem vfsClose_of_ne (b : Backends τ ν) (table : FdTable) {i j : Fin maxFds} (hij : i ≠ j) :
    (vfsClose b table j.val).2.1 i = table i := by
  unfold vfsClose
  split
  · rfl
  · next k hk =>
    obtain ⟨hkj, -⟩ := fdSlot_eq_some.mp hk
    have hjk : j = k := Fin.ext (by omega)
    subst hjk
    dsimp only
    split_ifs
    · exact Function.update_of_ne hij _ _
    · rfl

/-- `dup2` onto a standard descriptor refuses other terminals. -/
theorem TtyOk.dup2 (h : TtyOk p) (oldfd newfd : ℤ) :
    TtyOk { p with fds := (vfsDup2 b p.fds p.tty oldfd newfd).2.1 } := by
  unfold vfsDup2
  split
  · exact h
  · next i hold =>
    obtain ⟨hi, -⟩ := fdSlot_eq_some.mp hold
    have hown : ¬ (newfd ≤ 2 ∧ ∃ id, ttyHandleId (p.fds i) = some id ∧ (id.val : ℤ) ≠ p.tty) →
        newfd ≤ 2 → ∀ id, ttyHandleId (p.fds i) = some id → (id.val : ℤ) = p.tty := by
      intro hnot hle id hid
      by_contra hne
      exact hnot ⟨hle, id, hid, hne⟩
    dsimp only
    split_ifs with hnew heq htty hocc
    · exact h
    · exact h
    · have hj : newfd = ((⟨newfd.toNat, by omega⟩ : Fin maxFds).val : ℤ) := by
        show newfd = (newfd.toNat : ℤ)
        omega
      have hij : i ≠ ⟨newfd.toNat, by omega⟩ := fun he => heq (by rw [hi, he]; exact hj.symm)
      refine (h.close newfd).set _ fun hlt id hid => ?_
      have hkeep : (vfsClose b p.fds newfd).2.1 i = p.fds i := by
        conv_lhs => rw [hj]
        exact vfsClose_of_ne b p.fds hij
      dsimp only at hid hlt
      rw [hkeep] at hid
      exact hown htty (by omega) id hid
    · refine h.set _ fun hlt id hid => ?_
      dsimp only at hlt
      exact hown htty (by omega) id hid
    · exact h

/-- The loop of `vfs_exit_fds` only empties slots. -/
theorem TtyOk.exit (h : TtyOk p) (is : List (Fin maxFds)) :
    TtyOk { p with fds := (exitLoop is p.fds b).1 } := by
  induction is generalizing p b with
  | nil => exact h
  | cons i is ih =>
    rw [exitLoop, exitFd_eq]
    split_ifs
    · exact ih h
    · exact ih (h.clear i)

theorem TtyOk.exitFds (h : TtyOk p) (exited : Bool) :
    TtyOk ⟨(vfsExitFds b p.fds).1, p.tty, exited⟩ := by
  have hexit := h.exit (b := b) (List.finRange maxFds)
  rw [vfsExitFds]
  exact ⟨hexit.range, hexit.own⟩

/-! ## The invariant -/

variable {k k' : Kernel τ ν} {dev : Devices τ ν} {t : ℕ}

/-- Every task is in order. -/
def TtysOk (k : Kernel τ ν) : Prop := ∀ t < k.count, TtyOk (k.procs t)

theorem TtysOk.setProc (h : TtysOk k) {p : Proc} (hp : TtyOk p) (b : Backends τ ν) :
    TtysOk { k with procs := Function.update k.procs t p, back := b } := by
  intro u hu
  show TtyOk (Function.update k.procs t p u)
  by_cases hut : u = t
  · subst hut
    rw [Function.update_self]
    exact hp
  · rw [Function.update_of_ne hut]
    exact h u hu

theorem TtysOk.call (h : TtysOk k) (ht : t < k.count) {c : Call} {ret : ℤ}
    (hsafe : KeepsTty k (t, .vfs c)) (hs : k.call dev t c = some (ret, k')) : TtysOk k' := by
  have hp := h t ht
  cases c with
  | «open» path found =>
    cases hs
    exact h.setProc (hp.open path found hsafe) _
  | socket domain type protocol =>
    cases hs
    exact h.setProc (hp.socket domain type protocol) _
  | bind fd port =>
    cases hs
    exact h
  | read fd size dst =>
    obtain rfl | ⟨i, out, b, -, -, rfl⟩ := Kernel.call_read hs
    · exact h
    · exact h
  | write fd src data =>
    obtain rfl | ⟨i, -, rfl⟩ := Kernel.call_write hs
    · exact h
    · exact h
  | close fd =>
    cases hs
    exact h.setProc (hp.sysClose fd) _
  | dup2 oldfd newfd =>
    cases hs
    exact h.setProc (hp.dup2 oldfd newfd) _
  | fork =>
    obtain ⟨-, rfl⟩ | ⟨-, -, rfl⟩ := Kernel.call_fork hs
    · exact h
    · -- the child has its parent's terminal and descriptors
      intro u hu
      show TtyOk (Function.update k.procs k.count _ u)
      by_cases huc : u = k.count
      · subst huc
        rw [Function.update_self, vfsForkFds_table]
        exact ⟨hp.range, hp.own⟩
      · rw [Function.update_of_ne huc]
        have hlt : u < k.count + 1 := hu
        exact h u (by omega)
  | exit =>
    obtain ⟨-, rfl⟩ | ⟨-, rfl⟩ := Kernel.call_exit hs
    · exact h
    · exact h.setProc (hp.exitFds true) (vfsExitFds k.back (k.procs t).fds).2

theorem TtyOk.ioctl (h : TtyOk p) (request arg : UInt32) : TtyOk (sysIoctl p request arg).2 := by
  unfold sysIoctl schedulerSetTty
  split_ifs with hreq hvalid
  · exact TtyOk.bind p hvalid.1 hvalid.2
  · exact h
  · exact h

theorem TtyOk.execCommit (h : TtyOk p) {tty : ℤ} (hlt : tty < ttyCount) :
    TtyOk (Vfs.execCommit p tty) := by
  unfold Vfs.execCommit
  split_ifs with h0
  · exact TtyOk.bind p h0 hlt
  · exact h

theorem TtysOk.step (h : TtysOk k) {a : ℕ × TtyCall} (hsafe : KeepsTty k a)
    (hs : k.ttyStep dev a = some k') : TtysOk k' := by
  obtain ⟨t, c⟩ := a
  unfold Kernel.ttyStep at hs
  split_ifs at hs with ht
  cases c with
  | vfs c =>
    obtain ⟨⟨ret, k''⟩, hcall, rfl⟩ := Option.map_eq_some_iff.mp hs
    exact h.call ht hsafe hcall
  | ioctl request arg =>
    cases hs
    exact h.setProc ((h t ht).ioctl request arg) k.back
  | exec path found buf loads esi =>
    obtain ⟨⟨read, b⟩, -, rfl⟩ := Option.map_eq_some_iff.mp hs
    dsimp only
    split_ifs with hc
    · exact h.setProc ((h t ht).execCommit (hsafe hc.2.1)) b
    · exact h

/-- **Every task keeps to its own terminal.** From boot on, in every run of
    calls by any tasks that keep the terminal (`KeepsTty`), every task's terminal
    exists, and whenever descriptor 0, 1 or 2 of a task is on a terminal, it is
    the task's own. -/
theorem controlling_tty_invariant {k₀ : Kernel τ ν} (hcount : k₀.count = 2)
    (hboot : ∀ t < 2, k₀.procs t = ⟨vfsInitFds 0, 0, false⟩)
    (h : Reachable (restrict (Steps (Kernel.ttyStep dev)) KeepsTty) k₀ k) :
    ∀ t < k.count, (0 ≤ (k.procs t).tty ∧ (k.procs t).tty < ttyCount) ∧
      ∀ i : Fin maxFds, i.val < 3 → ∀ id, ttyHandleId ((k.procs t).fds i) = some id →
        (id.val : ℤ) = (k.procs t).tty := by
  have hinv : TtysOk k := by
    apply h.invariant (P := TtysOk)
    · intro t ht
      rw [hboot t (hcount ▸ ht)]
      exact TtyOk.init false
    · rintro u a v hu ⟨hsafe, hs⟩
      exact hu.step hsafe hs
  exact fun t ht => ⟨(hinv t ht).range, (hinv t ht).own⟩

/-- An ELF image with one segment, a zeroed page at `0x47000000`. -/
def gettyImage : List UInt8 :=
  [0x7F, 0x45, 0x4C, 0x46, 1, 1, 1, 0, 0, 0, 0, 0, 0, 0, 0, 0,
   2, 0, 3, 0, 1, 0, 0, 0, 0, 0, 0, 0x47, 52, 0, 0, 0, 0, 0, 0, 0,
   0, 0, 0, 0, 52, 0, 32, 0, 1, 0, 0, 0, 0, 0, 0, 0,
   1, 0, 0, 0, 84, 0, 0, 0, 0, 0, 0, 0x47, 0, 0, 0, 0x47, 0, 0, 0, 0, 0, 0x10, 0, 0,
   5, 0, 0, 0, 0, 0x10, 0, 0]

/-- `getty.elf` in the first cluster of the volume, at byte 49664 of the disk. -/
def gettyEntry : DirEntry := ⟨2, 84⟩

def gettyDevices : Devices Unit Unit :=
  { idleDevices with
    volume := ⟨fun a => if a < 49664 then 0 else gettyImage.getD (a - 49664) 0,
      ⟨512, 1, 1, 2, 512, 32⟩, 0⟩ }

/-- `init` moves to terminal 2 and forks; the child runs a program on terminal 3,
    opens terminal 1, which gets descriptor 3, and exits. -/
theorem controlling_tty_invariant_getty :
    ∃ k, Reachable (restrict (Steps (Kernel.ttyStep gettyDevices)) KeepsTty) bootSystem.kernel k ∧
      k.count = 3 ∧ (k.procs 1).tty = 2 ∧ ∀ t < 3, (k.procs t).tty < ttyCount := by
  obtain ⟨k, hrun, hcount, htty⟩ : ∃ k,
      Run (restrict (Steps (Kernel.ttyStep gettyDevices)) KeepsTty) bootSystem.kernel
        [(1, .ioctl 0x540E 2), (1, .vfs .fork),
          (2, .exec (some "getty.elf".toList) (some gettyEntry) 0x300000 true 3),
          (2, .vfs (.open (some "dev/tty1".toList) none)), (2, .vfs .exit)] k ∧
      k.count = 3 ∧ (k.procs 1).tty = 2 :=
    exists_run_restrict (by decide +kernel)
  have h := controlling_tty_invariant rfl (fun _ _ => rfl) ⟨_, hrun⟩
  exact ⟨k, ⟨_, hrun⟩, hcount, htty, fun t ht => (h t (hcount ▸ ht)).1.2⟩

/-- **`exec` accepts any terminal.** `init` executes a program with `ESI = 7`:
    its terminal is then 7, which does not exist, and its standard descriptors
    are on terminal 0. -/
theorem exec_sets_invalid_tty :
    ∃ k, Reachable (Steps (Kernel.ttyStep gettyDevices)) bootSystem.kernel k ∧
      (k.procs 1).tty = 7 ∧ ¬ (k.procs 1).tty < ttyCount ∧
      ttyHandleId ((k.procs 1).fds 0) = some 0 := by
  obtain ⟨k, hrun, hseen⟩ : ∃ k, Run (Steps (Kernel.ttyStep gettyDevices)) bootSystem.kernel
      [(1, .exec (some "getty.elf".toList) (some gettyEntry) 0x300000 true 7)] k ∧
      (k.procs 1).tty = 7 ∧ ¬ (k.procs 1).tty < ttyCount ∧
      ttyHandleId ((k.procs 1).fds 0) = some 0 :=
    exists_run (by decide +kernel)
  exact ⟨k, ⟨_, hrun⟩, hseen⟩

end Mboot.Vfs
