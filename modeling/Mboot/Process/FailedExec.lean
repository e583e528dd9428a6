import Mboot.Process.Elf
import Mboot.Vfs.FailedOpen

/-!
# `exec` calls that fail

Model of `exec_elf` (`stage2/elf.c`, lines 90–152) with all it does: the file, the buffer,
the program headers and `scheduler_exec_replace`. It fails when there is no such file, when
the file is empty or no program, and when the segments span no page.

A negative handle counts as a missing file. The handles of devices are negative as well, and
`exec_elf` does not close them.

* `failed_exec_unchanged_iff`: a failed `exec` leaves the task and the tables as they were
  if and only if opening the path takes neither a slot of `/dev/cpuinfo` nor a UDP terminal
  or server.
* `failed_exec_leaks_cpuinfo`: `exec` of `/dev/cpuinfo` takes a slot for good.
-/

namespace Mboot.Process

open Common Fat16 Net
open Heap (HeapState)
open Paging
open Vfs (Backends Devices Proc fileOpen fileClose fileRead fat16GetSize execCommit SameTables
  BindsPath heldRefs emptyHandle)

variable {τ ν : Type}

/-! ## Model -/

/-- The fields of a task control block that `exec` is about. -/
structure ExecTask where
  memory : TaskMemory
  esp : ℕ
  proc : Proc

/-- The heap with the rest of the memory, the backends and the task that calls. -/
structure ExecState (τ ν : Type) where
  heap : HeapState
  back : Backends τ ν
  task : ExecTask

/-- The arguments of `exec_elf`; `found` is the result of `find_file_in_dir`. -/
structure ExecArgs where
  path : Option (List Char)
  found : Option DirEntry
  argc : ℤ
  argv : ℕ → ℕ
  tty : ℤ
  regs : Option ℕ

/-- The bytes that were read. -/
def outcomeBytes : ReadOutcome → List UInt8
  | .done _ bytes => bytes
  | .waiting => []

/-- The memory from `buf` on. -/
def bufferBytes (heap : HeapState) (buf i : ℕ) : Option UInt8 :=
  some (heap.mem ((buf + i) % 2 ^ 32))

/-- The end of `exec_elf` (lines 142–151): `scheduler_exec_replace`, and the release of the
    buffer and of the array of segments. -/
def execImage (pageDirectory : ℕ) (idle : Bool) (args : ExecArgs) (buf array entry : ℕ)
    (segments : List Segment) (s : ExecState τ ν) : Option (ℕ × ExecState τ ν) := do
  let current := if idle then none else some s.task.memory
  let (task, heap) ←
    schedulerExecReplace pageDirectory current entry segments args.argc args.argv args.regs s.heap
  let heap ← Heap.kfree heap buf
  let heap ← Heap.kfree heap array
  match task with
  | none => return (0, { s with heap := heap })
  | some u =>
    return (u.esp, { s with
      heap := heap
      task := ⟨⟨u.tcb, u.stackBase, u.cr3⟩, u.esp, execCommit s.task.proc args.tty⟩ })

/-- `exec_elf` from the magic number on (lines 108–151), for the file in the buffer at `buf`.
    The segments are a list; of their array only the allocation is modelled. -/
def execBuffer (pageDirectory : ℕ) (idle : Bool) (args : ExecArgs) (buf : ℕ)
    (s : ExecState τ ν) : Option (ℕ × ExecState τ ν) := do
  match ← readHeader (bufferBytes s.heap buf) with
  | none => return (0, { s with heap := ← Heap.kfree s.heap buf })
  | some phnum =>
    let (array, heap) ← Heap.kmalloc s.heap (phnum * 16)
    if array = 0 then return (0, { s with heap := ← Heap.kfree heap buf })
    match ← readSegments (bufferBytes heap buf) buf phnum with
    | none => return (0, { s with heap := ← Heap.kfree (← Heap.kfree heap buf) array })
    | some (entry, segments) =>
      execImage pageDirectory idle args buf array entry segments { s with heap := heap }

/-- `exec_elf` (lines 90–152). `kmalloc` for an empty file returns null. -/
def execElf (dev : Devices τ ν) (pageDirectory : ℕ) (idle : Bool) (args : ExecArgs)
    (s : ExecState τ ν) : Option (ℕ × ExecState τ ν) :=
  let (file, back) := fileOpen s.back s.task.proc.tty args.path args.found
  if file < 0 then some (0, { s with back := back })
  else do
    let size := fat16GetSize back.openFiles file
    let (buf, heap) ← Heap.kmalloc s.heap size
    if buf = 0 then return (0, { s with heap := heap, back := (fileClose back file).2 })
    let (out, back) ← fileRead dev back file size buf
    execBuffer pageDirectory idle args buf { s with
      heap := { heap with mem := store heap.mem buf (outcomeBytes out) }
      back := (fileClose back file).2 }

/-! ## What is left of a failed call -/

/-- Opening the path takes a slot of `/dev/cpuinfo`, or a UDP terminal or server. -/
def TakesDevice (b : Backends τ ν) (path : Option (List Char)) : Prop :=
  Vfs.pathEq (Vfs.normalizePath path) "dev/cpuinfo" = true ∧
    Vfs.firstFreeCpuinfo b.cpuinfoFiles ≠ none ∨ BindsPath b path

/-- The task is as it was, and so are the slots with their references, the UDP terminals and
    the ports with a server. -/
structure ExecUnchanged (s s' : ExecState τ ν) : Prop where
  task : s'.task = s.task
  tables : SameTables s.back s'.back
  sockets : s'.back.sockets = s.back.sockets

/-! ## `scheduler_exec_replace` -/

/-- A computation that returns does so step by step. -/
theorem kernel_bind {α β : Type} {x : Heap.Kernel α} {f : α → Heap.Kernel β} {h : HeapState}
    {r : β × HeapState} (hrun : (x >>= f) h = some r) :
    ∃ a h', x h = some (a, h') ∧ f a h' = some r := by
  obtain ⟨⟨a, h'⟩, hx, hf⟩ := Option.bind_eq_some_iff.mp hrun
  exact ⟨a, h', hx, hf⟩

theorem pushWords_sp {sp sp' : ℕ} {ws : List ℕ} {h h' : HeapState}
    (hrun : pushWords sp ws h = some (sp', h')) : sp' = sp - 4 * ws.length := by
  induction ws generalizing sp h with
  | nil =>
    cases hrun
    simp
  | cons w ws ih =>
    obtain ⟨_, h₁, -, hrest⟩ := kernel_bind hrun
    rw [ih hrest, List.length_cons]
    omega

theorem copyArgs_length {cr3 n : ℕ} {argv : ℕ → ℕ} {kargv kargv' : List ℕ} {h h' : HeapState}
    (hrun : copyArgs cr3 argv n kargv h = some (kargv', h')) :
    kargv'.length ≤ kargv.length + n := by
  induction n generalizing kargv h with
  | zero =>
    cases hrun
    exact le_rfl
  | succ n ih =>
    rw [copyArgs] at hrun
    split_ifs at hrun
    · cases hrun
      omega
    · obtain ⟨arg, h₁, -, hrest⟩ := kernel_bind hrun
      have hle := ih hrest
      rw [List.length_append, List.length_singleton] at hle
      omega

/-- A task that was replaced has a stack pointer inside its stack, which is not 0. -/
theorem schedulerExecReplace_esp {pageDirectory entry : ℕ} {current : Option TaskMemory}
    {segments : List Segment} {argc : ℤ} {argv : ℕ → ℕ} {r : Option ℕ} {h h' : HeapState}
    {u : UserTask}
    (hrun : schedulerExecReplace pageDirectory current entry segments argc argv r h =
      some (some u, h')) : u.esp ≠ 0 := by
  cases current with
  | none => cases hrun
  | some task =>
    rw [schedulerExecReplace] at hrun
    by_cases hne : segments = []
    · rw [if_pos hne] at hrun
      cases hrun
    rw [if_neg hne] at hrun
    obtain ⟨⟨kargv, dir⟩, h₁, hprepare, hrun⟩ := kernel_bind hrun
    dsimp only at hrun
    split_ifs at hrun with hspan
    · cases hrun
    obtain ⟨⟨stack, sp⟩, h₂, hbuild, hrun⟩ := kernel_bind hrun
    obtain ⟨_, h₃, -, hrun⟩ := kernel_bind hrun
    obtain ⟨_, h₄, -, hrun⟩ := kernel_bind hrun
    cases hrun
    -- at most 16 arguments, and so at most 31 words on the stack
    obtain ⟨kargv₁, _, hargs, hprepare⟩ := kernel_bind hprepare
    obtain ⟨_, _, -, hprepare⟩ := kernel_bind hprepare
    obtain ⟨_, _, -, hprepare⟩ := kernel_bind hprepare
    obtain ⟨_, _, -, hprepare⟩ := kernel_bind hprepare
    cases hprepare
    have hlen := copyArgs_length hargs
    obtain ⟨_, _, -, hbuild⟩ := kernel_bind hbuild
    obtain ⟨_, _, -, hbuild⟩ := kernel_bind hbuild
    obtain ⟨_, _, -, hbuild⟩ := kernel_bind hbuild
    obtain ⟨_, _, hframe, hbuild⟩ := kernel_bind hbuild
    cases hbuild
    have hsp := pushWords_sp hframe
    simp only [List.length_append, List.length_reverse, List.length_cons, List.length_nil,
      List.length_replicate, taskStackSize, maxTaskArgs] at hsp hlen
    dsimp only
    omega

/-! ## `exec_elf` -/

section Parts

variable {pageDirectory : ℕ} {idle : Bool} {args : ExecArgs} {s s' : ExecState τ ν}

/-- The end of a failed call changes the heap only. -/
theorem execImage_failed {buf array entry : ℕ} {segments : List Segment}
    (hrun : execImage pageDirectory idle args buf array entry segments s = some (0, s')) :
    s'.task = s.task ∧ s'.back = s.back := by
  unfold execImage at hrun
  simp only [Option.bind_eq_bind, Option.pure_def] at hrun
  obtain ⟨⟨task, heap⟩, hreplace, hrun⟩ := Option.bind_eq_some_iff.mp hrun
  obtain ⟨heap₁, -, hrun⟩ := Option.bind_eq_some_iff.mp hrun
  obtain ⟨heap₂, -, hrun⟩ := Option.bind_eq_some_iff.mp hrun
  cases task with
  | none =>
    cases hrun
    exact ⟨rfl, rfl⟩
  | some u =>
    have hesp := schedulerExecReplace_esp hreplace
    simp only [Option.some.injEq, Prod.mk.injEq] at hrun
    exact absurd hrun.1 hesp

theorem execBuffer_failed {buf : ℕ}
    (hrun : execBuffer pageDirectory idle args buf s = some (0, s')) :
    s'.task = s.task ∧ s'.back = s.back := by
  unfold execBuffer at hrun
  simp only [Option.bind_eq_bind, Option.pure_def] at hrun
  obtain ⟨header, -, hrun⟩ := Option.bind_eq_some_iff.mp hrun
  cases header with
  | none =>
    obtain ⟨heap, -, hrun⟩ := Option.bind_eq_some_iff.mp hrun
    cases hrun
    exact ⟨rfl, rfl⟩
  | some phnum =>
    obtain ⟨⟨array, heap⟩, -, hrun⟩ := Option.bind_eq_some_iff.mp hrun
    dsimp only at hrun
    split_ifs at hrun
    · obtain ⟨heap', -, hrun⟩ := Option.bind_eq_some_iff.mp hrun
      cases hrun
      exact ⟨rfl, rfl⟩
    · obtain ⟨found, -, hrun⟩ := Option.bind_eq_some_iff.mp hrun
      cases found with
      | none =>
        obtain ⟨heap₁, -, hrun⟩ := Option.bind_eq_some_iff.mp hrun
        obtain ⟨heap₂, -, hrun⟩ := Option.bind_eq_some_iff.mp hrun
        cases hrun
        exact ⟨rfl, rfl⟩
      | some image =>
        obtain ⟨entry, segments⟩ := image
        exact execImage_failed (s := { s with heap := heap }) hrun

end Parts

section Files

variable {b : Backends τ ν} {tty : ℤ} {path : Option (List Char)} {found : Option DirEntry}

/-- Where no slot of `/dev/cpuinfo` can be taken, the UDP terminals decide. -/
theorem not_takesDevice_iff (hfull : Vfs.CpuinfoFull b path) :
    ¬TakesDevice b path ↔ SameTables b (Vfs.udpTtyOpen b (Vfs.normalizePath path)).2 := by
  have htakes : TakesDevice b path ↔ BindsPath b path := or_iff_right fun hc => hc.2 (hfull hc.1)
  rw [htakes, Vfs.udpTtyOpen_same_iff]

/-- A handle that counts as a missing file: nothing is closed. -/
theorem fileOpen_negative (h : (fileOpen b tty path found).1 < 0) :
    (SameTables b (fileOpen b tty path found).2 ↔ ¬TakesDevice b path) ∧
      (fileOpen b tty path found).2.sockets = b.sockets := by
  have hsockets := (Vfs.udpTtyOpen_spec b (Vfs.normalizePath path)).2.1
  cases Vfs.fileOpen_cases b tty path found with
  | device handle heq hlt hid hport hfull =>
    have hnot : ¬TakesDevice b path := by
      rintro (⟨hname, hne⟩ | hbinds)
      · exact hne (hfull hname)
      · exact Vfs.not_bindsPath_of_none hport hbinds
    rw [heq]
    exact ⟨iff_of_true (.refl b) hnot, rfl⟩
  | cpuinfo i heq hname hfree =>
    -- the slot is taken and stays in use
    have hunused : (b.cpuinfoFiles i).used = false := by simpa using List.find?_some hfree
    rw [heq]
    refine ⟨iff_of_false (fun hsame => ?_) (not_not.mpr (.inl ⟨hname, by rw [hfree]; simp⟩)), rfl⟩
    have hslot := hsame.cpuinfo i
    simp [heldRefs, hunused] at hslot
  | udp port heq hport hserve hfull | missing heq hserve hno hfull =>
    rw [heq, not_takesDevice_iff hfull]
    exact ⟨Iff.rfl, hsockets⟩
  | file i file heq =>
    rw [heq] at h
    dsimp only at h
    omega

/-- A handle of a file: a slot was taken, on top of what `udp_tty_open` did. -/
theorem fileOpen_file (h : ¬(fileOpen b tty path found).1 < 0) :
    ∃ b₁ : Backends τ ν, ∃ i file, fileOpen b tty path found =
        ((i.val : ℤ), { b₁ with openFiles := Function.update b₁.openFiles i file }) ∧
      (b₁.openFiles i).used = false ∧ file.used = true ∧ file.refs = 1 ∧
      (SameTables b b₁ ↔ ¬TakesDevice b path) ∧ b₁.sockets = b.sockets := by
  cases Vfs.fileOpen_cases b tty path found with
  | device handle heq hlt =>
    rw [heq] at h
    exact absurd (hlt.trans (by decide)) h
  | cpuinfo i heq =>
    rw [heq] at h
    simp only [Vfs.devCpuinfoBase] at h
    omega
  | udp port heq =>
    rw [heq] at h
    simp only [Vfs.devUdpBase] at h
    omega
  | missing heq =>
    rw [heq] at h
    exact absurd (by decide : emptyHandle < 0) h
  | file i file heq hfree hused hrefs hcan hfull =>
    exact ⟨_, i, file, heq, hfree, hused, hrefs, (not_takesDevice_iff hfull).symm,
      (Vfs.udpTtyOpen_spec b (Vfs.normalizePath path)).2.1⟩

/-- Reading the file moves its offset. -/
theorem fileRead_file {dev : Devices τ ν} {b' : Backends τ ν} {i : Fin maxOpenFiles} {size buf : ℕ}
    {out : ReadOutcome} (hread : fileRead dev b i.val size buf = some (out, b'))
    (hused : (b.openFiles i).used = true) :
    ∃ offset, b' = { b with
      openFiles := Function.update b.openFiles i { b.openFiles i with offset := offset } } := by
  have hvalid : socketHandleValid b.sockets (i.val : ℤ) = false :=
    Vfs.Routes.not_valid (o := .file i) trivial (by simp)
  have hsome : fileOf b.openFiles (i.val : ℤ) = some i := by
    rw [show ((i.val : ℕ) : ℤ) = (Vfs.Object.file i).handle from rfl, Vfs.fileOf_file, if_pos hused]
  simp only [fileRead, hvalid, Bool.false_eq_true, if_false] at hread
  rw [if_neg (by simp only [emptyHandle]; omega)] at hread
  obtain ⟨⟨ret, bytes, files⟩, hfat, heq⟩ := Option.map_eq_some_iff.mp hread
  cases heq
  rcases Vfs.fat16Read_files hfat with rfl | ⟨j, offset, hj, rfl⟩
  · exact ⟨(b.openFiles i).offset, by rw [Function.update_eq_self]⟩
  · rw [hsome] at hj
    cases hj
    exact ⟨offset, rfl⟩

theorem fileClose_file_sockets (i : Fin maxOpenFiles) :
    (fileClose b i.val).2.sockets = b.sockets := by
  rw [show ((i.val : ℕ) : ℤ) = (Vfs.Object.file i).handle from rfl,
    Vfs.fileClose_handle (o := .file i) trivial]
  rfl

end Files

/-- For every call that fails, whatever the path, the file and the state are: the task with its
    descriptors, the slots with their references, the UDP terminals and the ports with a
    server are as before, if and only if opening the path takes no slot of `/dev/cpuinfo` and
    binds no UDP port. -/
theorem failed_exec_unchanged_iff {dev : Devices τ ν} {pageDirectory : ℕ} {idle : Bool}
    {args : ExecArgs} {s s' : ExecState τ ν}
    (h : execElf dev pageDirectory idle args s = some (0, s')) :
    ExecUnchanged s s' ↔ ¬TakesDevice s.back args.path := by
  have hiff : ∀ (heap : HeapState) (b' : Backends τ ν), b'.sockets = s.back.sockets →
      (ExecUnchanged s ⟨heap, b', s.task⟩ ↔ SameTables s.back b') := fun heap b' hs =>
    ⟨fun hu => hu.tables, fun htables => ⟨rfl, htables, hs⟩⟩
  unfold execElf at h
  dsimp only at h
  by_cases hneg : (fileOpen s.back s.task.proc.tty args.path args.found).1 < 0
  · obtain ⟨htables, hsockets⟩ := fileOpen_negative hneg
    rw [if_pos hneg] at h
    cases h
    rw [hiff _ _ hsockets, htables]
  obtain ⟨b₁, i, file, hopen, hfree, hused, hrefs, htables, hsockets⟩ := fileOpen_file hneg
  -- the slot of the file is given back, wherever the file has been read to
  have hclosed : ∀ (heap : HeapState) (offset : ℕ), ExecUnchanged s ⟨heap, (fileClose { b₁ with
      openFiles := Function.update b₁.openFiles i { file with offset := offset } } i.val).2,
        s.task⟩ ↔ ¬TakesDevice s.back args.path := by
    intro heap offset
    have hsame := Vfs.fileClose_file_same { file with offset := offset } hfree hused hrefs
    have hsock : (fileClose { b₁ with
        openFiles := Function.update b₁.openFiles i { file with offset := offset } }
          i.val).2.sockets = s.back.sockets := (fileClose_file_sockets i).trans hsockets
    rw [hiff _ _ hsock, hsame.iff_right, htables]
  rw [if_neg hneg, hopen] at h
  simp only [Option.bind_eq_bind, Option.pure_def] at h
  obtain ⟨⟨buf, heap⟩, -, h⟩ := Option.bind_eq_some_iff.mp h
  dsimp only at h
  split_ifs at h
  · -- there is no buffer for an empty file
    cases h
    exact hclosed heap file.offset
  · obtain ⟨⟨out, b₂⟩, hread, h⟩ := Option.bind_eq_some_iff.mp h
    obtain ⟨offset, rfl⟩ := fileRead_file hread (by simp [hused])
    obtain ⟨htask, hback⟩ := execBuffer_failed h
    obtain ⟨heap', back', task'⟩ := s'
    simp only [Function.update_self, Function.update_idem] at hback htask
    subst htask hback
    exact hclosed heap' offset

/-- A heap of 1 MiB, a task with the directory at `0x101000`, and free tables. -/
def execState : ExecState Unit Unit where
  heap := ⟨fun _ => 0, 0x100000, 0x200000, 0, 0x100000⟩
  back := Vfs.freeBackends
  task := ⟨⟨0x100010, 0x110000, 0x101000⟩, 0x11F000, ⟨Vfs.vfsInitFds 0, 0, false⟩⟩

/-- `exec` without arguments. -/
def execOf (path : String) : ExecArgs := ⟨some path.toList, none, 0, fun _ => 0, -1, none⟩

/-- A missing file. -/
theorem failed_exec_unchanged_iff_missing :
    ∃ s', execElf Vfs.idleDevices 0x101000 false (execOf "/sh.elf") execState = some (0, s') ∧
      ExecUnchanged execState s' := by
  have hrun : execElf Vfs.idleDevices 0x101000 false (execOf "/sh.elf") execState =
      some (0, execState) := rfl
  refine ⟨execState, hrun, (failed_exec_unchanged_iff hrun).mpr ?_⟩
  rintro (⟨hname, -⟩ | ⟨port, hport, -⟩)
  · exact absurd hname (by decide)
  · have hnone : Vfs.udpPathPort (Vfs.normalizePath (execOf "/sh.elf").path) = none := by decide
    rw [hnone] at hport
    cases hport

/-- `exec` of `/dev/cpuinfo` fails, and the first of the four slots is in use from then on. -/
theorem failed_exec_leaks_cpuinfo :
    ∃ s', execElf Vfs.idleDevices 0x101000 false (execOf "/dev/cpuinfo") execState =
        some (0, s') ∧
      (execState.back.cpuinfoFiles 0).used = false ∧ (s'.back.cpuinfoFiles 0).used = true ∧
      ¬ExecUnchanged execState s' := by
  refine ⟨_, rfl, rfl, rfl, fun h => ?_⟩
  have hslot := h.tables.cpuinfo 0
  exact absurd hslot (by decide)

end Mboot.Process
