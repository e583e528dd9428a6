import Mboot.Net.Fifo
import Mboot.Vfs.ControllingTty

/-!
# Opens that fail

`vfs_open` (vfs.c lines 403–412) fails when `file_open` does, or when the task has no
empty descriptor; it then closes the handle again. What `file_open` takes for a FAT16
file or for `/dev/cpuinfo` is given back by the close. A UDP terminal and its server are
taken by `udp_tty_open` one after the other, and neither is given back: not when there is
no server, and not by `device_close`.

* `failed_open_unchanged_iff`: a failed open changes nothing if and only if it does not
  name a UDP port for which something has to be taken.
* `failed_open_binds_terminal`: with four servers in use, the failed open of a fifth port
  leaves a terminal bound to it.
-/

namespace Mboot.Vfs

open Common Scheduler Fat16 Net

variable {τ ν : Type*}

/-! ## The tables -/

/-- The references to a slot in use. The count in a free slot has no meaning; the open
    that takes the slot sets it. -/
def heldRefs (used : Bool) (refs : ℤ) : Option ℤ := if used then some refs else none

/-- The port of a bound terminal. -/
def heldPort (tty : UdpTty) : Option ℕ := if tty.bound then some tty.port else none

/-- The same slots are in use with the same references, the same terminals are bound to
    the same ports, and the same ports have a server. -/
structure SameTables (b b' : Backends τ ν) : Prop where
  files : ∀ i, heldRefs (b'.openFiles i).used (b'.openFiles i).refs =
    heldRefs (b.openFiles i).used (b.openFiles i).refs
  cpuinfo : ∀ i, heldRefs (b'.cpuinfoFiles i).used (b'.cpuinfoFiles i).refs =
    heldRefs (b.cpuinfoFiles i).used (b.cpuinfoFiles i).refs
  ttys : ∀ i, heldPort (b'.udpTtys i) = heldPort (b.udpTtys i)
  ports : ∀ port, Serves b'.servers port ↔ Serves b.servers port

theorem SameTables.refl (b : Backends τ ν) : SameTables b b :=
  ⟨fun _ => rfl, fun _ => rfl, fun _ => rfl, fun _ => Iff.rfl⟩

theorem SameTables.symm {b b' : Backends τ ν} (h : SameTables b b') : SameTables b' b :=
  ⟨fun i => (h.files i).symm, fun i => (h.cpuinfo i).symm, fun i => (h.ttys i).symm,
    fun port => (h.ports port).symm⟩

theorem SameTables.trans {b b' b'' : Backends τ ν} (h : SameTables b b')
    (h' : SameTables b' b'') : SameTables b b'' :=
  ⟨fun i => (h'.files i).trans (h.files i), fun i => (h'.cpuinfo i).trans (h.cpuinfo i),
    fun i => (h'.ttys i).trans (h.ttys i), fun port => (h'.ports port).trans (h.ports port)⟩

/-- What does not touch the tables can be left out of a comparison. -/
theorem SameTables.iff_right {b b' b'' : Backends τ ν} (h : SameTables b' b'') :
    SameTables b b'' ↔ SameTables b b' :=
  ⟨fun hb => hb.trans h.symm, fun hb => hb.trans h⟩

/-- There is a server for the port, or room for one. -/
def CanServe (b : Backends τ ν) (port : ℕ) : Prop :=
  Serves b.servers port ∨ ∃ i, b.servers i = none

/-- Opening the port takes something: a terminal, or a server for the terminal that is
    there already. -/
def Binds (b : Backends τ ν) (port : ℕ) : Prop :=
  (¬UdpBound b port ∧ ∃ i, (b.udpTtys i).bound = false) ∨
    UdpBound b port ∧ ¬Serves b.servers port ∧ ∃ i, b.servers i = none

/-- The path names a UDP port for which something is taken. -/
def BindsPath (b : Backends τ ν) (path : Option (List Char)) : Prop :=
  ∃ port, udpPathPort (normalizePath path) = some port ∧ Binds b port

/-- `fat16_open` finds the file and a free slot. -/
def CanOpen (b : Backends τ ν) (found : Option DirEntry) : Prop :=
  found.isSome ∧ ∃ i, (b.openFiles i).used = false

variable {b : Backends τ ν} {path name : Option (List Char)} {found : Option DirEntry} {port : ℕ}

/-! ## UDP ports -/

theorem udpTtyForPort_cases (b : Backends τ ν) (port : ℕ) :
    (∃ i, udpTtyForPort b.udpTtys port = (some i, b.udpTtys) ∧ UdpBound b port) ∨
    (∃ i, udpTtyForPort b.udpTtys port =
        (some i, Function.update b.udpTtys i ⟨port, true, Stream.zero⟩) ∧
      ¬UdpBound b port ∧ (b.udpTtys i).bound = false) ∨
    udpTtyForPort b.udpTtys port = (none, b.udpTtys) ∧ ¬UdpBound b port ∧
      ∀ i, (b.udpTtys i).bound = true := by
  unfold udpTtyForPort
  split
  · next i hi =>
    have hbound := List.find?_some hi
    simp only [Bool.and_eq_true, beq_iff_eq] at hbound
    exact .inl ⟨i, rfl, i, hbound⟩
  · next hnone =>
    have hnot : ¬UdpBound b port := by
      rintro ⟨i, hbound, hport⟩
      have := List.find?_eq_none.mp hnone i (List.mem_finRange i)
      simp [hbound, hport] at this
    split
    · next i hi => exact .inr (.inl ⟨i, rfl, hnot, by simpa using List.find?_some hi⟩)
    · next hfull =>
      refine .inr (.inr ⟨rfl, hnot, fun i => ?_⟩)
      simpa using List.find?_eq_none.mp hfull i (List.mem_finRange i)

/-- A terminal that has come to be bound is a change. -/
theorem not_sameTables_of_tty {b' : Backends τ ν} {i : Fin udpTtyMaxPorts}
    (h : (b.udpTtys i).bound = false) (h' : (b'.udpTtys i).bound = true) : ¬SameTables b b' := by
  intro hsame
  have := hsame.ttys i
  simp [heldPort, h, h'] at this

/-- What `udp_tty_open` does to the tables, and when it opens the port. -/
theorem udpTtyOpen_tables (h : udpPathPort name = some port) :
    (SameTables b (udpTtyOpen b name).2 ↔ ¬Binds b port) ∧
    ((udpTtyOpen b name).1 = emptyHandle ∧ (Binds b port → ¬CanServe b port) ∨
      (udpTtyOpen b name).1 = devUdpBase - port ∧ CanServe b port) := by
  have hport := udpPathPort_lt h
  unfold udpTtyOpen
  rw [h]
  dsimp only
  rcases udpTtyForPort_cases b port with ⟨i, htty, hbound⟩ | ⟨i, htty, hbound, hfree⟩ |
    ⟨htty, hbound, hfull⟩
  · -- the terminal is there
    rw [htty]
    rcases udpServerBind_outcome b.servers hport with ⟨hbind, hserves⟩ | ⟨hbind, hserves, hnone⟩ |
      ⟨k, m, hbind, hserves, hk, hm, -⟩
    · have hnot : ¬Binds b port := fun hb => hb.elim (fun h => h.1 hbound) fun h => h.2.1 hserves
      rw [hbind]
      exact ⟨iff_of_true (.refl b) hnot, .inr ⟨rfl, .inl hserves⟩⟩
    · have hnot : ¬Binds b port := by
        rintro (⟨hno, -⟩ | ⟨-, -, k, hk⟩)
        · exact hno hbound
        · exact hnone k hk
      rw [hbind]
      exact ⟨iff_of_true (.refl b) hnot, .inl ⟨rfl, fun hb => absurd hb hnot⟩⟩
    · rw [hbind]
      refine ⟨iff_of_false (fun hsame => ?_) (not_not.mpr (.inr ⟨hbound, hserves, k, hk⟩)),
        .inr ⟨rfl, .inr ⟨k, hk⟩⟩⟩
      exact hserves ((hsame.ports port).mp ((serves_update hk).mpr (.inr hm)))
  · -- a terminal is taken, and stays bound in all cases
    have hbinds : Binds b port := .inl ⟨hbound, i, hfree⟩
    have hchanged : ∀ servers, ¬SameTables b { b with
        udpTtys := Function.update b.udpTtys i ⟨port, true, Stream.zero⟩, servers := servers } :=
      fun servers => not_sameTables_of_tty hfree (by simp)
    rw [htty]
    rcases udpServerBind_outcome b.servers hport with ⟨hbind, hserves⟩ | ⟨hbind, hserves, hnone⟩ |
      ⟨k, m, hbind, hserves, hk, hm, -⟩
    · rw [hbind]
      exact ⟨iff_of_false (hchanged _) (not_not.mpr hbinds), .inr ⟨rfl, .inl hserves⟩⟩
    · have hcannot : ¬CanServe b port := fun hs => hs.elim hserves fun ⟨k, hk⟩ => hnone k hk
      rw [hbind]
      exact ⟨iff_of_false (hchanged _) (not_not.mpr hbinds), .inl ⟨rfl, fun _ => hcannot⟩⟩
    · rw [hbind]
      exact ⟨iff_of_false (hchanged _) (not_not.mpr hbinds), .inr ⟨rfl, .inr ⟨k, hk⟩⟩⟩
  · have hnot : ¬Binds b port := by
      rintro (⟨-, i, hi⟩ | ⟨hyes, -⟩)
      · rw [hfull i] at hi
        cases hi
      · exact hbound hyes
    rw [htty]
    exact ⟨iff_of_true (.refl b) hnot, .inl ⟨rfl, fun hb => absurd hb hnot⟩⟩

theorem udpTtyOpen_of_none (h : udpPathPort name = none) :
    udpTtyOpen b name = (emptyHandle, b) := by
  rw [udpTtyOpen, h]

theorem udpTtyOpen_same_iff (b : Backends τ ν) (path : Option (List Char)) :
    SameTables b (udpTtyOpen b (normalizePath path)).2 ↔ ¬BindsPath b path := by
  cases hport : udpPathPort (normalizePath path) with
  | none =>
    rw [udpTtyOpen_of_none hport]
    refine iff_of_true (.refl b) ?_
    rintro ⟨port, hsome, -⟩
    rw [hport] at hsome
    cases hsome
  | some port =>
    rw [(udpTtyOpen_tables hport).1, BindsPath]
    simp [hport]

/-! ## Closing what was opened -/

/-- Closing a device without a reference count leaves the tables alone. A port in the range
    of the sockets' handles can close a socket. -/
theorem fileClose_device_same {handle : ℤ} (hlt : handle < emptyHandle)
    (hcpu : cpuinfoHandleId handle = none) : SameTables b (fileClose b handle).2 := by
  unfold fileClose
  split_ifs
  · exact ⟨fun _ => rfl, fun _ => rfl, fun _ => rfl, fun _ => Iff.rfl⟩
  · rw [deviceClose, hcpu]
    exact .refl b

/-- The slot of `/dev/cpuinfo` is given back. -/
theorem fileClose_cpuinfo_same {i : Fin cpuinfoOpenFiles} (h : (b.cpuinfoFiles i).used = false) :
    SameTables b (fileClose { b with
      cpuinfoFiles := Function.update b.cpuinfoFiles i ⟨true, 1, 0⟩ }
        (devCpuinfoBase - i.val)).2 := by
  rw [show devCpuinfoBase - i.val = (Object.cpuinfo i).handle from rfl,
    fileClose_handle (o := .cpuinfo i) trivial, objectClose, cpuinfoClose, cpuinfoOf_cpuinfo]
  simp only [Function.update_self, if_true, Function.update_idem]
  refine ⟨fun _ => rfl, fun j => ?_, fun _ => rfl, fun _ => Iff.rfl⟩
  by_cases hj : j = i
  · subst hj
    simp [heldRefs, h, int32]
  · simp only [Function.update_of_ne hj]

/-- The slot of a file is given back. -/
theorem fileClose_file_same {i : Fin maxOpenFiles} (file : File)
    (h : (b.openFiles i).used = false) (hused : file.used = true) (hrefs : file.refs = 1) :
    SameTables b
      (fileClose { b with openFiles := Function.update b.openFiles i file } i.val).2 := by
  rw [show ((i.val : ℕ) : ℤ) = (Object.file i).handle from rfl,
    fileClose_handle (o := .file i) trivial, objectClose,
    fat16Close_of_used (r := 0) (by simp [hused]) (by simp [hrefs]) (by norm_num)]
  refine ⟨fun j => ?_, fun _ => rfl, fun _ => rfl, fun _ => Iff.rfl⟩
  by_cases hj : j = i
  · subst hj
    simp [heldRefs, h]
  · simp only [Function.update_of_ne hj]

/-! ## `file_open` -/

/-- `fat16_open` fails and changes nothing, or takes a free slot. -/
theorem openFile_cases (b : Backends τ ν) (path : Option (List Char)) (found : Option DirEntry) :
    openFile b path found = (emptyHandle, b) ∧
      (path ≠ none → path ≠ some [] → ¬CanOpen b found) ∨
    ∃ i file, openFile b path found =
        ((i.val : ℤ), { b with openFiles := Function.update b.openFiles i file }) ∧
      (b.openFiles i).used = false ∧ file.used = true ∧ file.refs = 1 ∧ CanOpen b found := by
  unfold openFile
  split_ifs with hpath
  · exact .inl ⟨rfl, fun h1 h2 => absurd hpath (not_or.mpr ⟨h1, h2⟩)⟩
  unfold fat16Open
  cases found with
  | none => exact .inl ⟨rfl, fun _ _ h => absurd h.1 (by decide)⟩
  | some dir =>
    dsimp only
    split
    · next hnone =>
      refine .inl ⟨rfl, fun _ _ ⟨_, i, hi⟩ => ?_⟩
      have := List.find?_eq_none.mp hnone i (List.mem_finRange i)
      simp [hi] at this
    · next i hi =>
      have hfree : (b.openFiles i).used = false := by simpa using List.find?_some hi
      exact .inr ⟨i, _, rfl, hfree, rfl, rfl, rfl, i, hfree⟩

/-- A name of a port is not empty. -/
theorem path_of_udpPathPort (h : udpPathPort (normalizePath path) = some port) :
    path ≠ none ∧ path ≠ some [] := by
  constructor <;> rintro rfl <;> cases h

/-- What `file_open` has done: opened a device that holds nothing, taken a slot of
    `/dev/cpuinfo` or a UDP terminal, or, behind an `udp_tty_open` without a handle, found no
    file or taken a slot for one. -/
inductive FileOpened (b : Backends τ ν) (path : Option (List Char)) (found : Option DirEntry)
    (r : ℤ × Backends τ ν) : Prop
  | device (handle : ℤ) (heq : r = (handle, b)) (hlt : handle < emptyHandle)
      (hid : cpuinfoHandleId handle = none) (hport : udpPathPort (normalizePath path) = none)
      (hfull : CpuinfoFull b path)
  | cpuinfo (i : Fin cpuinfoOpenFiles) (heq : r = (devCpuinfoBase - i.val, { b with
        cpuinfoFiles := Function.update b.cpuinfoFiles i ⟨true, 1, 0⟩ }))
      (hname : pathEq (normalizePath path) "dev/cpuinfo" = true)
      (hfree : firstFreeCpuinfo b.cpuinfoFiles = some i)
      (hport : udpPathPort (normalizePath path) = none)
  | udp (port : ℕ) (heq : r = (devUdpBase - (port : ℤ), (udpTtyOpen b (normalizePath path)).2))
      (hport : udpPathPort (normalizePath path) = some port) (hserve : CanServe b port)
      (hfull : CpuinfoFull b path)
  | missing (heq : r = (emptyHandle, (udpTtyOpen b (normalizePath path)).2))
      (hserve : ∀ port, udpPathPort (normalizePath path) = some port → Binds b port →
        ¬CanServe b port)
      (hno : path ≠ none → path ≠ some [] → ¬CanOpen b found) (hfull : CpuinfoFull b path)
  | file (i : Fin maxOpenFiles) (file : Fat16.File) (heq : r = ((i.val : ℤ),
        { (udpTtyOpen b (normalizePath path)).2 with
          openFiles := Function.update (udpTtyOpen b (normalizePath path)).2.openFiles i file }))
      (hfree : ((udpTtyOpen b (normalizePath path)).2.openFiles i).used = false)
      (hused : file.used = true) (hrefs : file.refs = 1) (hcan : CanOpen b found)
      (hfull : CpuinfoFull b path)

theorem fileOpen_cases (b : Backends τ ν) (tty : ℤ) (path : Option (List Char))
    (found : Option DirEntry) : FileOpened b path found (fileOpen b tty path found) := by
  cases deviceOpen_cases b tty path with
  | device handle hdev hlt hid hport hfull _ =>
    exact .device handle (fileOpen_of_device hdev hlt.ne) hlt hid hport hfull
  | cpuinfo i hdev hname hfree hport _ =>
    exact .cpuinfo i (fileOpen_of_device hdev (Object.cpuinfo i).handle_ne_empty) hname hfree hport
  | udp hdev hfull _ =>
    by_cases hempty : (udpTtyOpen b (normalizePath path)).1 = emptyHandle
    · have hopen : fileOpen b tty path found =
          openFile (udpTtyOpen b (normalizePath path)).2 path found :=
        fileOpen_of_empty (by rw [hdev, ← hempty])
      have hfiles := (udpTtyOpen_spec b (normalizePath path)).2.2.1
      have hsame : CanOpen (udpTtyOpen b (normalizePath path)).2 found ↔ CanOpen b found := by
        rw [CanOpen, CanOpen, hfiles]
      rcases openFile_cases (udpTtyOpen b (normalizePath path)).2 path found with ⟨heq, hno⟩ |
        ⟨i, file, heq, hfree, hused, hrefs, hcan⟩
      · refine .missing (hopen.trans heq) (fun port hport hbinds => ?_)
          (fun h1 h2 hcan => hno h1 h2 (hsame.mpr hcan)) hfull
        rcases (udpTtyOpen_tables (b := b) hport).2 with ⟨-, h⟩ | ⟨h, -⟩
        · exact h hbinds
        · rw [hempty] at h
          simp only [emptyHandle, devUdpBase] at h
          omega
      · exact .file i file (hopen.trans heq) hfree hused hrefs (hsame.mp hcan) hfull
    · cases hport : udpPathPort (normalizePath path) with
      | none => exact absurd (by rw [udpTtyOpen_of_none hport]) hempty
      | some port =>
        rcases (udpTtyOpen_tables (b := b) hport).2 with ⟨h, -⟩ | ⟨hhandle, hserve⟩
        · exact absurd h hempty
        · refine .udp port ?_ hport hserve hfull
          rw [← hhandle]
          exact fileOpen_of_device hdev hempty

theorem not_bindsPath_of_none (hport : udpPathPort (normalizePath path) = none) :
    ¬BindsPath b path := by
  rintro ⟨port, hsome, -⟩
  rw [hport] at hsome
  cases hsome

/-- Whether `file_open` fails, and what is left of it when its handle is closed again. -/
theorem fileOpen_undone (b : Backends τ ν) (tty : ℤ) (path : Option (List Char))
    (found : Option DirEntry) :
    ((fileOpen b tty path found).1 = emptyHandle →
      (SameTables b (fileOpen b tty path found).2 ↔ ¬BindsPath b path)) ∧
    ((fileOpen b tty path found).1 ≠ emptyHandle →
      (SameTables b (fileClose (fileOpen b tty path found).2 (fileOpen b tty path found).1).2 ↔
        ¬BindsPath b path)) ∧
    ∀ port, udpPathPort (normalizePath path) = some port → Binds b port →
      ((fileOpen b tty path found).1 ≠ emptyHandle ↔ CanServe b port ∨ CanOpen b found) := by
  have htables := udpTtyOpen_same_iff b path
  cases fileOpen_cases b tty path found with
  | device handle heq hlt hid hport =>
    rw [heq]
    refine ⟨fun h => absurd h hlt.ne, fun _ => ?_, fun port hsome _ => ?_⟩
    · exact iff_of_true (fileClose_device_same hlt hid) (not_bindsPath_of_none hport)
    · rw [hport] at hsome
      cases hsome
  | cpuinfo i heq hname hfree hport =>
    have hne : devCpuinfoBase - (i.val : ℤ) ≠ emptyHandle := (Object.cpuinfo i).handle_ne_empty
    rw [heq]
    refine ⟨fun h => absurd h hne, fun _ => ?_, fun port hsome _ => ?_⟩
    · exact iff_of_true (fileClose_cpuinfo_same (by simpa using List.find?_some hfree))
        (not_bindsPath_of_none hport)
    · rw [hport] at hsome
      cases hsome
  | udp port heq hport hserve =>
    have hlt : devUdpBase - (port : ℤ) < emptyHandle := by
      simp only [devUdpBase, emptyHandle]
      omega
    have hclose := fileClose_device_same (b := (udpTtyOpen b (normalizePath path)).2) hlt
      (cpuinfoHandleId_eq_none (.inr (by simp only [devUdpBase]; omega)))
    rw [heq]
    refine ⟨fun h => absurd h hlt.ne, fun _ => ?_, fun port' hsome _ => iff_of_true hlt.ne ?_⟩
    · rw [hclose.iff_right, htables]
    · rw [hport] at hsome
      cases hsome
      exact .inl hserve
  | missing heq hserve hno =>
    rw [heq]
    refine ⟨fun _ => htables, fun h => absurd rfl h, fun port hport hbinds => ?_⟩
    obtain ⟨h1, h2⟩ := path_of_udpPathPort hport
    exact iff_of_false (not_not.mpr rfl) (not_or.mpr ⟨hserve port hport hbinds, hno h1 h2⟩)
  | file i file heq hfree hused hrefs hcan =>
    have hne : ((i.val : ℕ) : ℤ) ≠ emptyHandle := (Object.file i).handle_ne_empty
    rw [heq]
    refine ⟨fun h => absurd h hne, fun _ => ?_, fun _ _ _ => iff_of_true hne (.inr hcan)⟩
    rw [(fileClose_file_same file hfree hused hrefs).iff_right, htables]

/-! ## `vfs_open` -/

/-- For all paths, tables and states: a failed `vfs_open` leaves the descriptors, the slots
    of files and of `/dev/cpuinfo`, the UDP terminals and the ports with a server as they
    were, if and only if the path names no UDP port that takes something, or else the open
    does not fail: there is an empty descriptor, and a server, room for one, or a file of
    this name to fall back to. -/
theorem failed_open_unchanged_iff (b : Backends τ ν) (table : FdTable) (tty : ℤ)
    (path : Option (List Char)) (found : Option DirEntry) :
    ((vfsOpen b table tty path found).1 = -1 →
      (vfsOpen b table tty path found).2.1 = table ∧
        SameTables b (vfsOpen b table tty path found).2.2) ↔
    ∀ port, udpPathPort (normalizePath path) = some port → Binds b port →
      (∃ i, table i = emptyHandle) ∧ (CanServe b port ∨ CanOpen b found) := by
  obtain ⟨hfailed, hclosed, hopens⟩ := fileOpen_undone b tty path found
  have hbinds : (¬BindsPath b path) ↔
      ∀ port, udpPathPort (normalizePath path) = some port → ¬Binds b port := by
    simp [BindsPath]
  rw [vfsOpen_eq]
  by_cases hempty : (fileOpen b tty path found).1 = emptyHandle
  · -- nothing was opened
    rw [installHandle, if_pos hempty]
    constructor
    · intro h port hport hb
      exact absurd hb (hbinds.mp ((hfailed hempty).mp (h rfl).2) port hport)
    · intro h _
      refine ⟨rfl, (hfailed hempty).mpr (hbinds.mpr fun port hport hb => ?_)⟩
      exact (hopens port hport hb).mpr (h port hport hb).2 hempty
  obtain ⟨i, hi, heq⟩ | ⟨hfull, heq⟩ :=
    installHandle_cases (fileOpen b tty path found).2 table hempty
  · -- the open succeeds
    rw [heq]
    refine iff_of_true (fun h => ?_) fun port hport hb => ⟨⟨i, hi⟩, (hopens port hport hb).mp hempty⟩
    dsimp only at h
    omega
  · -- the handle is closed again
    rw [heq]
    constructor
    · intro h port hport hb
      exact absurd hb (hbinds.mp ((hclosed hempty).mp (h rfl).2) port hport)
    · intro h _
      refine ⟨rfl, (hclosed hempty).mpr (hbinds.mpr fun port hport hb => ?_)⟩
      obtain ⟨⟨i, hi⟩, -⟩ := h port hport hb
      exact hfull i hi

/-- The servers of the ports 1, 2, 3 and 4. -/
def fourServers : Servers := fun i => some (storeWord 2 (fun _ => 0) 0 (i.val + 1))

/-- All servers are in use. Opening port 5 fails, and a terminal stays bound to it. -/
theorem failed_open_binds_terminal :
    ∃ b : Backends Unit Unit, ∃ table : FdTable,
      (vfsOpen b table 0 (some "/dev/udp5".toList) none).1 = -1 ∧
      (b.udpTtys 0).bound = false ∧
      ((vfsOpen b table 0 (some "/dev/udp5".toList) none).2.2.udpTtys 0).bound = true := by
  refine ⟨{ freeBackends with servers := fourServers }, vfsInitFds 0, ?_⟩
  decide +kernel

end Mboot.Vfs
