import Mboot.Vfs.Objects

/-!
# Tasks calling the virtual file system

The state machine of all tasks and the backends: any task that has not exited
may make the next call, and one call is one step.

A `System` is the kernel together with an observer that sees the calls and
their results, and keeps a record the kernel does not have: which object each
descriptor was made for, and which incarnation of it. `designated` says what
object an open stands for.
-/

namespace Mboot.Vfs

open Common Scheduler Fat16 Net

variable {τ ν : Type*}

/-! ## The kernel -/

/-- The part of a task control block the VFS reads: the descriptor table, the
    terminal, and whether the task is `TASK_EXITED`. -/
structure Proc where
  fds : FdTable
  tty : ℤ
  exited : Bool

/-- The tasks created so far and the backends. Task 0 is the idle task. -/
structure Kernel (τ ν : Type*) where
  procs : ℕ → Proc
  count : ℕ
  back : Backends τ ν

/-- The calls of a task. `found` in an open is the result of
    `find_file_in_dir`; `data` in a write is what lies at `src`. -/
inductive Call
  | open (path : Option (List Char)) (found : Option DirEntry)
  | socket (domain type protocol : ℤ)
  | bind (fd : ℤ) (port : ℕ)
  | read (fd : ℤ) (size dst : ℕ)
  | write (fd : ℤ) (src : ℕ) (data : List UInt8)
  | close (fd : ℤ)
  | dup2 (oldfd newfd : ℤ)
  | fork
  | exit

/-- The new table of task `t` and the new backends. -/
def Kernel.update (k : Kernel τ ν) (t : ℕ) (fds : FdTable) (b : Backends τ ν) : Kernel τ ν :=
  { k with procs := Function.update k.procs t { k.procs t with fds := fds }, back := b }

/-- The value of a finished read. -/
def readResult : ReadOutcome → ℤ
  | .done ret _ => ret
  | .waiting => 0

/-- A call of task `t`: its result and the kernel afterwards. The idle task
    neither forks nor exits (scheduler.c lines 511 and 557); a fork allocates a
    control block and returns its number as the PID. `none` stands for a
    `kmalloc` that halts, and for undefined behaviour in `fat16_read`. -/
def Kernel.call (dev : Devices τ ν) (k : Kernel τ ν) (t : ℕ) : Call → Option (ℤ × Kernel τ ν)
  | .open path found =>
    let (fd, fds, b) := vfsOpen k.back (k.procs t).fds (k.procs t).tty path found
    some (fd, k.update t fds b)
  | .socket domain type protocol =>
    let (fd, fds, b) := sysSocket k.back (k.procs t).fds domain type protocol
    some (fd, k.update t fds b)
  | .bind fd port =>
    let handle := ((fdSlot (k.procs t).fds fd).map (k.procs t).fds).getD emptyHandle
    let (ret, sockets, servers) := socketBind k.back.sockets k.back.servers handle port
    some (ret, { k with back := { k.back with sockets := sockets, servers := servers } })
  | .read fd size dst =>
    match fdSlot (k.procs t).fds fd with
    | none => some (-1, k)
    | some i =>
      (fileRead dev k.back ((k.procs t).fds i) size dst).map fun (out, b) =>
        (readResult out, { k with back := b })
  | .write fd src data =>
    match fdSlot (k.procs t).fds fd with
    | none => some (-1, k)
    | some i =>
      let (ret, b) := fileWrite dev k.back ((k.procs t).fds i) src data
      some (ret, { k with back := b })
  | .close fd =>
    let (ret, fds, b) := sysClose k.back (k.procs t).fds fd
    some (ret, k.update t fds b)
  | .dup2 oldfd newfd =>
    let (ret, fds, b) := vfsDup2 k.back (k.procs t).fds (k.procs t).tty oldfd newfd
    some (ret, k.update t fds b)
  | .fork =>
    if t = 0 then some (-1, k)
    else if k.count < maxTasks then
      let (fds, b) := vfsForkFds k.back (k.procs t).fds
      some (k.count,
        { procs := Function.update k.procs k.count ⟨fds, (k.procs t).tty, false⟩,
          count := k.count + 1, back := b })
    else none
  | .exit =>
    if t = 0 then some (0, k)
    else
      let (fds, b) := vfsExitFds k.back (k.procs t).fds
      some (0, { k with procs := Function.update k.procs t ⟨fds, (k.procs t).tty, true⟩,
                        back := b })

/-! ## The observer -/

/-- The objects that are allocated and carry a reference count. -/
def Object.counted : Object → Bool
  | .cpuinfo _ | .file _ | .socket _ => true
  | _ => false

/-- The file slot `fat16_open` takes. -/
def firstFreeFile (files : OpenFiles) : Option (Fin maxOpenFiles) :=
  (List.finRange maxOpenFiles).find? fun i => !(files i).used

/-- The file an open designates when no device does. -/
def designatedFile (b : Backends τ ν) (path : Option (List Char)) (found : Option DirEntry) :
    Option Object :=
  if path = none ∨ path = some [] ∨ found.isNone then none
  else (firstFreeFile b.openFiles).map .file

/-- The object an open of `path` designates. -/
def designated (b : Backends τ ν) (currentTty : ℤ) (path : Option (List Char))
    (found : Option DirEntry) : Option Object :=
  let name := normalizePath path
  if pathEq name "dev/null" then some .null
  else if pathEq name "dev/zero" then some .zero
  else if pathEq name "dev/full" then some .full
  else
    match (if pathEq name "dev/cpuinfo" then firstFreeCpuinfo b.cpuinfoFiles else none) with
    | some i => some (.cpuinfo i)
    | none =>
      let tty := ttyPathId currentTty name
      if h : 0 ≤ tty ∧ tty < ttyCount then some (.tty ⟨tty.toNat, toNat_lt_of_range h⟩)
      else
        match udpPathPort name with
        | some port =>
          if (udpTtyOpen b name).1 = emptyHandle then designatedFile b path found
          else some (.udp port)
        | none => designatedFile b path found

/-- The socket a socket call designates. -/
def designatedSocket (b : Backends τ ν) (domain type protocol : ℤ) : Option Object :=
  if socketArgsOk domain type protocol then (firstFreeSocket b.sockets).map .socket else none

/-- The record of one table: for each descriptor in use the object it was made
    for, with the number of the object's incarnation. -/
abbrev Record := Fin maxFds → Option (Object × ℕ)

/-- The record with `v` for descriptor `fd`; a negative `fd` changes nothing. -/
def Record.set (r : Record) (fd : ℤ) (v : Option (Object × ℕ)) : Record :=
  fun i => if (i.val : ℤ) = fd then v else r i

/-- What the record says about descriptor `fd`. -/
def Record.get (r : Record) (fd : ℤ) : Option (Object × ℕ) :=
  if h : 0 ≤ fd ∧ fd < maxFds then r ⟨fd.toNat, toNat_lt_of_range h⟩ else none

/-- The kernel and the observer's record. `gen o` is the number of times the
    object `o` has been allocated. -/
structure System (τ ν : Type*) where
  kernel : Kernel τ ν
  records : ℕ → Record
  gen : Object → ℕ

/-- An allocation of `o` starts a new incarnation. -/
def bump (gen : Object → ℕ) (o : Object) : Object → ℕ :=
  if o.counted then Function.update gen o (gen o + 1) else gen

/-- A call that designates `d` has returned `fd` to task `t`. -/
def System.opened (s : System τ ν) (t : ℕ) (d : Option Object) (fd : ℤ) :
    (ℕ → Record) × (Object → ℕ) :=
  match d with
  | none => (s.records, s.gen)
  | some o =>
    let gen := bump s.gen o
    (Function.update s.records t ((s.records t).set fd (some (o, gen o))), gen)

/-- What the observer notes when a call of task `t` returns `ret`. -/
def System.observe (s : System τ ν) (t : ℕ) (ret : ℤ) : Call → (ℕ → Record) × (Object → ℕ)
  | .open path found =>
    s.opened t (designated s.kernel.back (s.kernel.procs t).tty path found) ret
  | .socket domain type protocol =>
    s.opened t (designatedSocket s.kernel.back domain type protocol) ret
  | .close fd =>
    if fd > 2 ∧ ret = 0 then
      (Function.update s.records t ((s.records t).set fd none), s.gen)
    else (s.records, s.gen)
  | .dup2 oldfd newfd =>
    if ret = newfd ∧ 0 ≤ ret then
      (Function.update s.records t ((s.records t).set newfd ((s.records t).get oldfd)), s.gen)
    else (s.records, s.gen)
  | .fork =>
    if 0 ≤ ret then (Function.update s.records ret.toNat (s.records t), s.gen)
    else (s.records, s.gen)
  | .exit =>
    if t = 0 then (s.records, s.gen)
    else (Function.update s.records t fun _ => none, s.gen)
  | _ => (s.records, s.gen)

/-- A task that exists and has not exited. -/
def Kernel.Live (k : Kernel τ ν) (t : ℕ) : Prop := t < k.count ∧ (k.procs t).exited = false

instance (k : Kernel τ ν) (t : ℕ) : Decidable (k.Live t) :=
  inferInstanceAs (Decidable (_ ∧ _))

/-- One call by task `a.1`. Calls between an `exit` and the next tick are left out. -/
def System.step (dev : Devices τ ν) (s : System τ ν) (a : ℕ × Call) : Option (System τ ν) :=
  if s.kernel.Live a.1 then
    (s.kernel.call dev a.1 a.2).map fun (ret, k) =>
      { kernel := k, records := (s.observe a.1 ret a.2).1, gen := (s.observe a.1 ret a.2).2 }
  else none

/-- After boot: the idle task and `init`, each with the first terminal as its
    standard descriptors (scheduler.c lines 29–30 and 262), and all slots free. -/
structure Booted (s : System τ ν) : Prop where
  count : s.kernel.count = 2
  proc : ∀ t < 2, s.kernel.procs t = ⟨vfsInitFds 0, 0, false⟩
  files : ∀ i, (s.kernel.back.openFiles i).used = false
  cpuinfo : ∀ i, (s.kernel.back.cpuinfoFiles i).used = false
  sockets : ∀ i, (s.kernel.back.sockets i).used = false
  records : ∀ t < 2, ∀ i, s.records t i = if i.val < 3 then some (.tty 0, s.gen (.tty 0)) else none

end Mboot.Vfs
