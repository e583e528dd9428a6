import Mboot.Scheduler.Model
import Mboot.Fat16.Model
import Mboot.Net.Socket

/-!
# The virtual file system

Model of `stage2/vfs.c`: device paths, the handle ranges, the operations on
handles and the descriptor tables of the tasks.

* A `const char *` is `none` for `NULL` and otherwise the characters in front
  of the terminator.
* The FAT16 driver is registered and has all its operations, so the tests of
  `current_driver` are not modelled. What `find_file_in_dir` finds is an
  argument of the open.
* The terminals (`dev/tty.c`) and the network under `udp_send_local` are
  parameters: `Devices` has their operations, on the state of one terminal and
  of the hardware.
* A result of `none` of a read stands for undefined behaviour of `fat16_read`.
-/

namespace Mboot.Vfs

open Common Scheduler Fat16 Net

/-! ## Handles -/

/-- `VFS_EMPTY_HANDLE` (vfs.c line 15). -/
abbrev emptyHandle : ℤ := -1

/-- `VFS_DEV_NULL` (line 16). -/
abbrev devNull : ℤ := -2

/-- `VFS_DEV_ZERO` (line 17). -/
abbrev devZero : ℤ := -3

/-- `VFS_DEV_FULL` (line 18). -/
abbrev devFull : ℤ := -4

/-- `VFS_DEV_CPUINFO_BASE` (line 19). -/
abbrev devCpuinfoBase : ℤ := -8

/-- `VFS_DEV_TTY_BASE` (line 20). -/
abbrev devTtyBase : ℤ := -32

/-- `VFS_DEV_UDP_BASE` (line 21). -/
abbrev devUdpBase : ℤ := -1024

/-- `CPUINFO_OPEN_FILES` (line 22). -/
abbrev cpuinfoOpenFiles : ℕ := 4

/-- `UDP_TTY_MAX_PORTS` (line 23). -/
abbrev udpTtyMaxPorts : ℕ := 8

/-- `TTY_COUNT` (inc/dev/tty.h). -/
abbrev ttyCount : ℕ := 4

instance : NeZero ttyCount := ⟨by decide⟩

/-- `cpuinfo_file_t` (lines 40–44). -/
structure CpuinfoFile where
  used : Bool
  refs : ℤ
  offset : ℕ
  deriving DecidableEq

/-- `udp_tty_t` (lines 27–38). -/
structure UdpTty where
  port : ℕ
  bound : Bool
  stream : Stream
  deriving DecidableEq

/-- `udp_ttys` (line 47). -/
abbrev UdpTtys := Fin udpTtyMaxPorts → UdpTty

/-- The objects behind the handles, with one state `τ` for each terminal and a
    state `ν` for the display and the network. -/
structure Backends (τ ν : Type*) where
  openFiles : OpenFiles
  cpuinfoFiles : Fin cpuinfoOpenFiles → CpuinfoFile
  sockets : Sockets
  udpTtys : UdpTtys
  servers : Servers
  ttys : Fin ttyCount → τ
  hardware : ν

/-- The code and data below the VFS: `tty_read`, `tty_write_buf`,
    `udp_send_local`, the text of `/dev/cpuinfo` and the mounted volume. -/
structure Devices (τ ν : Type*) where
  ttyRead : τ → ν → ℕ → ℕ → ReadOutcome × τ × ν
  ttyWriteBuf : τ → ν → ℕ → List UInt8 → ℤ × τ × ν
  udpSendLocal : Send ν
  cpuinfoText : List UInt8
  volume : Volume

variable {τ ν : Type*}

/-! ## Paths -/

/-- The loop of `normalize_path` (lines 54–59), also in `fat16_open`. -/
def stripLeading : List Char → List Char
  | '/' :: path => stripLeading path
  | '.' :: '/' :: path => stripLeading path
  | path => path

/-- `normalize_path` (lines 51–61). -/
def normalizePath (path : Option (List Char)) : Option (List Char) := path.map stripLeading

/-- `path_eq` (lines 63–71) against a literal. -/
def pathEq (name : Option (List Char)) (lit : String) : Bool := name == some lit.toList

/-- `path_has_prefix` (lines 73–83) with a literal: what follows it in the
    name, or `none` when it is not a prefix. -/
def afterPrefix (name : Option (List Char)) (lit : String) : Option (List Char) := do
  let name ← name
  if lit.toList.isPrefixOf name then some (name.drop lit.length) else none

/-- `tty_path_id` (lines 85–94); `currentTty` is `scheduler_current_tty()`. -/
def ttyPathId (currentTty : ℤ) (name : Option (List Char)) : ℤ :=
  if pathEq name "dev/tty" then currentTty
  else
    match afterPrefix name "dev/tty" with
    | some [n] => if n < '1' ∨ n > '4' then -1 else n.toNat - '1'.toNat
    | _ => -1

/-- The loop of `parse_uint16` (lines 96–110) with its two counters. -/
def parseUint16 : ℕ → ℕ → List Char → Option ℕ
  | value, digits, [] => if digits = 0 then none else some value
  | value, digits, c :: s =>
    if '0' ≤ c ∧ c ≤ '9' then
      let value := value * 10 + (c.toNat - '0'.toNat)
      if value > 65535 then none else parseUint16 value (digits + 1) s
    else none

/-- The port of a `dev/udp` name (lines 146–151). -/
def udpPathPort (name : Option (List Char)) : Option ℕ :=
  (afterPrefix name "dev/udp").bind (parseUint16 0 0)

/-! ## UDP terminals -/

/-- `udp_tty_for_port` (lines 112–128): the terminal bound to the port, or the
    first unbound one, which is cleared and bound. -/
def udpTtyForPort (ttys : UdpTtys) (port : ℕ) : Option (Fin udpTtyMaxPorts) × UdpTtys :=
  match (List.finRange udpTtyMaxPorts).find? fun i => (ttys i).bound && (ttys i).port == port with
  | some i => (some i, ttys)
  | none =>
    match (List.finRange udpTtyMaxPorts).find? fun i => !(ttys i).bound with
    | some i => (some i, Function.update ttys i ⟨port, true, Stream.zero⟩)
    | none => (none, ttys)

/-- `udp_tty_handle_port` (lines 130–134). -/
def udpTtyHandlePort (handle : ℤ) : Option ℤ :=
  if handle ≤ devUdpBase then some (devUdpBase - handle) else none

/-- `udp_tty_open` (lines 145–161). The terminal stays bound when the server
    cannot be. -/
def udpTtyOpen (b : Backends τ ν) (name : Option (List Char)) : ℤ × Backends τ ν :=
  match udpPathPort name with
  | none => (emptyHandle, b)
  | some port =>
    match udpTtyForPort b.udpTtys port with
    | (none, ttys) => (emptyHandle, { b with udpTtys := ttys })
    | (some _, ttys) =>
      let (ret, servers) := udpServerBind b.servers port
      let b := { b with udpTtys := ttys, servers := servers }
      if ret < 0 then (emptyHandle, b) else (devUdpBase - port, b)

/-! ## `/dev/cpuinfo` -/

/-- The slot `cpuinfo_open` takes. -/
def firstFreeCpuinfo (files : Fin cpuinfoOpenFiles → CpuinfoFile) :
    Option (Fin cpuinfoOpenFiles) :=
  (List.finRange cpuinfoOpenFiles).find? fun i => !(files i).used

/-- `cpuinfo_open` (lines 163–177). -/
def cpuinfoOpen (b : Backends τ ν) (name : Option (List Char)) : ℤ × Backends τ ν :=
  if !pathEq name "dev/cpuinfo" then (emptyHandle, b)
  else
    match firstFreeCpuinfo b.cpuinfoFiles with
    | none => (emptyHandle, b)
    | some i =>
      (devCpuinfoBase - i.val,
        { b with cpuinfoFiles := Function.update b.cpuinfoFiles i ⟨true, 1, 0⟩ })

/-- `cpuinfo_handle_id` (lines 199–205). -/
def cpuinfoHandleId (handle : ℤ) : Option (Fin cpuinfoOpenFiles) :=
  if h : handle ≤ devCpuinfoBase ∧ handle > devCpuinfoBase - cpuinfoOpenFiles then
    some ⟨(devCpuinfoBase - handle).toNat, by omega⟩
  else none

/-- The test at the head of `cpuinfo_read`, `cpuinfo_close` and `cpuinfo_dup`. -/
def cpuinfoOf (files : Fin cpuinfoOpenFiles → CpuinfoFile) (handle : ℤ) :
    Option (Fin cpuinfoOpenFiles) :=
  (cpuinfoHandleId handle).filter fun i => (files i).used

/-- `cpuinfo_read` (lines 214–234). -/
def cpuinfoRead (dev : Devices τ ν) (b : Backends τ ν) (handle : ℤ) (size dst : ℕ) :
    ReadOutcome × Backends τ ν :=
  match cpuinfoOf b.cpuinfoFiles handle with
  | none => (.done (-1) [], b)
  | some i =>
    if dst = 0 then (.done (-1) [], b)
    else
      let file := b.cpuinfoFiles i
      let bytes := (dev.cpuinfoText.drop file.offset).take size
      (.done (int32 bytes.length) bytes,
        { b with cpuinfoFiles :=
            Function.update b.cpuinfoFiles i { file with offset := file.offset + bytes.length } })

/-- `cpuinfo_close` (lines 280–292). -/
def cpuinfoClose (b : Backends τ ν) (handle : ℤ) : ℤ × Backends τ ν :=
  match cpuinfoOf b.cpuinfoFiles handle with
  | none => (-1, b)
  | some i =>
    let file := { b.cpuinfoFiles i with refs := int32 ((b.cpuinfoFiles i).refs - 1) }
    let file := if file.refs ≤ 0 then { file with used := false, offset := 0 } else file
    (0, { b with cpuinfoFiles := Function.update b.cpuinfoFiles i file })

/-- `cpuinfo_dup` (lines 294–301). -/
def cpuinfoDup (b : Backends τ ν) (handle : ℤ) : ℤ × Backends τ ν :=
  match cpuinfoOf b.cpuinfoFiles handle with
  | none => (-1, b)
  | some i =>
    let file := { b.cpuinfoFiles i with refs := int32 ((b.cpuinfoFiles i).refs + 1) }
    (0, { b with cpuinfoFiles := Function.update b.cpuinfoFiles i file })

/-! ## Devices -/

/-- `device_open` (lines 179–197). -/
def deviceOpen (b : Backends τ ν) (currentTty : ℤ) (path : Option (List Char)) :
    ℤ × Backends τ ν :=
  let name := normalizePath path
  if pathEq name "dev/null" then (devNull, b)
  else if pathEq name "dev/zero" then (devZero, b)
  else if pathEq name "dev/full" then (devFull, b)
  else
    let (cpuinfo, b) := cpuinfoOpen b name
    if cpuinfo ≠ emptyHandle then (cpuinfo, b)
    else
      let tty := ttyPathId currentTty name
      if tty ≥ 0 then (devTtyBase - tty, b) else udpTtyOpen b name

/-- `tty_handle_id` (lines 207–212). -/
def ttyHandleId (handle : ℤ) : Option (Fin ttyCount) :=
  if h : handle ≤ devTtyBase ∧ handle > devTtyBase - ttyCount then
    some ⟨(devTtyBase - handle).toNat, by omega⟩
  else none

/-- `tty_read` on terminal `tty`. -/
def ttyRead (dev : Devices τ ν) (b : Backends τ ν) (tty : Fin ttyCount) (size dst : ℕ) :
    ReadOutcome × Backends τ ν :=
  let (out, t, hw) := dev.ttyRead (b.ttys tty) b.hardware size dst
  (out, { b with ttys := Function.update b.ttys tty t, hardware := hw })

/-- `tty_write_buf` on terminal `tty`. -/
def ttyWriteBuf (dev : Devices τ ν) (b : Backends τ ν) (tty : Fin ttyCount) (src : ℕ)
    (data : List UInt8) : ℤ × Backends τ ν :=
  let (ret, t, hw) := dev.ttyWriteBuf (b.ttys tty) b.hardware src data
  (ret, { b with ttys := Function.update b.ttys tty t, hardware := hw })

/-- The `/dev/udp` branch of `device_read` (lines 253–275). -/
def udpTtyRead (dev : Devices τ ν) (b : Backends τ ν) (port size dst : ℕ) :
    ReadOutcome × Backends τ ν :=
  match udpTtyForPort b.udpTtys port with
  | (none, ttys) => (.done (-1) [], { b with udpTtys := ttys })
  | (some i, ttys) =>
    if dst = 0 then (.done (-1) [], { b with udpTtys := ttys })
    else
      let (out, st, servers, hw) :=
        streamRead dev.udpSendLocal (ttys i).port b.servers (ttys i).stream b.hardware size
      (out, { b with udpTtys := Function.update ttys i { ttys i with stream := st },
                     servers := servers, hardware := hw })

/-- The `/dev/udp` branch of `device_write` (lines 325–340). -/
def udpTtyWrite (dev : Devices τ ν) (b : Backends τ ν) (port src : ℕ) (data : List UInt8) :
    ℤ × Backends τ ν :=
  match udpTtyForPort b.udpTtys port with
  | (none, ttys) => (-1, { b with udpTtys := ttys })
  | (some i, ttys) =>
    if src = 0 then (-1, { b with udpTtys := ttys })
    else
      let (ret, st, hw) :=
        streamWrite dev.udpSendLocal (ttys i).port (ttys i).stream b.hardware data
      (ret, { b with udpTtys := Function.update ttys i { ttys i with stream := st },
                     hardware := hw })

/-- `device_read` (lines 236–278). -/
def deviceRead (dev : Devices τ ν) (b : Backends τ ν) (handle : ℤ) (size dst : ℕ) :
    ReadOutcome × Backends τ ν :=
  if handle = devNull then (.done 0 [], b)
  else if handle = devZero ∨ handle = devFull then
    (.done (int32 size) (List.replicate size 0), b)
  else
    match ttyHandleId handle with
    | some tty => ttyRead dev b tty size dst
    | none =>
      match cpuinfoHandleId handle with
      | some _ => cpuinfoRead dev b handle size dst
      | none =>
        match udpTtyHandlePort handle with
        | some port => udpTtyRead dev b (port % 2 ^ 16).toNat size dst
        | none => (.done (-1) [], b)

/-- `device_write` (lines 315–343). -/
def deviceWrite (dev : Devices τ ν) (b : Backends τ ν) (handle : ℤ) (src : ℕ)
    (data : List UInt8) : ℤ × Backends τ ν :=
  if handle = devNull ∨ handle = devZero then (int32 data.length, b)
  else if handle = devFull then (-1, b)
  else
    match ttyHandleId handle with
    | some tty => ttyWriteBuf dev b tty src data
    | none =>
      match udpTtyHandlePort handle with
      | some port => udpTtyWrite dev b (port % 2 ^ 16).toNat src data
      | none => (-1, b)

/-- `device_close` (lines 303–307). -/
def deviceClose (b : Backends τ ν) (handle : ℤ) : ℤ × Backends τ ν :=
  if (cpuinfoHandleId handle).isSome then cpuinfoClose b handle else (0, b)

/-- `device_dup` (lines 309–313). -/
def deviceDup (b : Backends τ ν) (handle : ℤ) : ℤ × Backends τ ν :=
  if (cpuinfoHandleId handle).isSome then cpuinfoDup b handle else (0, b)

/-! ## Operations on handles -/

/-- `fat16_open` with its test of the path; `found` is the result of
    `find_file_in_dir`. -/
def openFile (b : Backends τ ν) (path : Option (List Char)) (found : Option DirEntry) :
    ℤ × Backends τ ν :=
  if path = none ∨ path = some [] then (-1, b)
  else
    let (handle, files) := fat16Open b.openFiles found
    (handle, { b with openFiles := files })

/-- `file_open` (lines 347–358). -/
def fileOpen (b : Backends τ ν) (currentTty : ℤ) (path : Option (List Char))
    (found : Option DirEntry) : ℤ × Backends τ ν :=
  let (device, b) := deviceOpen b currentTty path
  if device ≠ emptyHandle then (device, b) else openFile b path found

/-- `file_close` (lines 360–373). -/
def fileClose (b : Backends τ ν) (handle : ℤ) : ℤ × Backends τ ν :=
  if socketHandleValid b.sockets handle then
    let (ret, sockets) := socketClose b.sockets handle
    (ret, { b with sockets := sockets })
  else if handle < emptyHandle then deviceClose b handle
  else
    let (ret, files) := fat16Close b.openFiles handle
    (ret, { b with openFiles := files })

/-- `file_read` (lines 375–388). -/
def fileRead (dev : Devices τ ν) (b : Backends τ ν) (handle : ℤ) (size dst : ℕ) :
    Option (ReadOutcome × Backends τ ν) :=
  if socketHandleValid b.sockets handle then
    let (out, sockets, servers, hw) :=
      socketRead dev.udpSendLocal b.sockets b.servers b.hardware handle dst size
    some (out, { b with sockets := sockets, servers := servers, hardware := hw })
  else if handle < emptyHandle then some (deviceRead dev b handle size dst)
  else
    (fat16Read dev.volume b.openFiles handle size).map fun (ret, bytes, files) =>
      (.done ret bytes, { b with openFiles := files })

/-- `file_write` (lines 390–401). `fat16_write` returns `-1`. -/
def fileWrite (dev : Devices τ ν) (b : Backends τ ν) (handle : ℤ) (src : ℕ)
    (data : List UInt8) : ℤ × Backends τ ν :=
  if socketHandleValid b.sockets handle then
    let (ret, sockets, hw) := socketWrite dev.udpSendLocal b.sockets b.hardware handle src data
    (ret, { b with sockets := sockets, hardware := hw })
  else if handle < emptyHandle then deviceWrite dev b handle src data
  else (-1, b)

/-- Lines 501–508 of `vfs_dup2` and 549–556 of `vfs_fork_fds`: another
    reference to the object behind a handle. -/
def dupHandle (b : Backends τ ν) (handle : ℤ) : Backends τ ν :=
  if socketHandleValid b.sockets handle then
    { b with sockets := (socketDup b.sockets handle).2 }
  else if handle < emptyHandle then (deviceDup b handle).2
  else if handle ≥ 0 then { b with openFiles := (fat16Dup b.openFiles handle).2 }
  else b

/-! ## Descriptor tables -/

/-- `vfs_attach_handle` (lines 415–429). -/
def vfsAttachHandle (table : FdTable) (handle : ℤ) : ℤ × FdTable :=
  match (List.finRange maxFds).find? fun i => table i == emptyHandle with
  | some i => (i.val, Function.update table i handle)
  | none => (-1, table)

theorem toNat_lt_of_range {z : ℤ} {n : ℕ} (h : 0 ≤ z ∧ z < n) : z.toNat < n := by
  omega

/-- The slot of a descriptor in use: the range test and the test for
    `VFS_EMPTY_HANDLE` at the head of the functions on descriptors. -/
def fdSlot (table : FdTable) (fd : ℤ) : Option (Fin maxFds) :=
  if h : 0 ≤ fd ∧ fd < maxFds then
    let i : Fin maxFds := ⟨fd.toNat, by omega⟩
    if table i = emptyHandle then none else some i
  else none

/-- `vfs_open` (lines 403–412). -/
def vfsOpen (b : Backends τ ν) (table : FdTable) (currentTty : ℤ) (path : Option (List Char))
    (found : Option DirEntry) : ℤ × FdTable × Backends τ ν :=
  let (handle, b) := fileOpen b currentTty path found
  if handle = emptyHandle then (-1, table, b)
  else
    let (fd, table) := vfsAttachHandle table handle
    if fd < 0 then (fd, table, (fileClose b handle).2) else (fd, table, b)

/-- `sys_socket` (idt.c lines 125–133). -/
def sysSocket (b : Backends τ ν) (table : FdTable) (domain type protocol : ℤ) :
    ℤ × FdTable × Backends τ ν :=
  let (handle, sockets) := socketCreate b.sockets domain type protocol
  if socketHandleValid sockets handle then
    let (fd, table) := vfsAttachHandle table handle
    if fd < 0 then (fd, table, { b with sockets := (socketClose sockets handle).2 })
    else (fd, table, { b with sockets := sockets })
  else (-1, table, { b with sockets := sockets })

/-- `vfs_close` (lines 463–476). -/
def vfsClose (b : Backends τ ν) (table : FdTable) (fd : ℤ) : ℤ × FdTable × Backends τ ν :=
  match fdSlot table fd with
  | none => (-1, table, b)
  | some i =>
    let (result, b) := fileClose b (table i)
    if result = 0 then (result, Function.update table i emptyHandle, b) else (result, table, b)

/-- `sys_close` (idt.c lines 61–71): standard descriptors are left alone. -/
def sysClose (b : Backends τ ν) (table : FdTable) (fd : ℤ) : ℤ × FdTable × Backends τ ν :=
  if fd > 2 then vfsClose b table fd else (0, table, b)

/-- `vfs_dup2` (lines 480–511). -/
def vfsDup2 (b : Backends τ ν) (table : FdTable) (currentTty : ℤ) (oldfd newfd : ℤ) :
    ℤ × FdTable × Backends τ ν :=
  match fdSlot table oldfd with
  | none => (-1, table, b)
  | some i =>
    if h : 0 ≤ newfd ∧ newfd < maxFds then
      let j : Fin maxFds := ⟨newfd.toNat, by omega⟩
      if oldfd = newfd then (newfd, table, b)
      else if newfd ≤ 2 ∧ ∃ tty, ttyHandleId (table i) = some tty ∧ (tty.val : ℤ) ≠ currentTty then
        (-1, table, b)
      else
        let (_, table, b) :=
          if table j ≠ emptyHandle then vfsClose b table newfd else (0, table, b)
        let table := Function.update table j (table i)
        (newfd, table, dupHandle b (table j))
    else (-1, table, b)

/-- The loop of `vfs_fork_fds` (lines 542–558), over the given slots. -/
def forkLoop (parent : FdTable) : List (Fin maxFds) → FdTable → Backends τ ν →
    FdTable × Backends τ ν
  | [], child, b => (child, b)
  | i :: is, child, b =>
    let child := Function.update child i (parent i)
    forkLoop parent is child (dupHandle b (child i))

/-- `vfs_fork_fds` (lines 542–558). The child's block is fresh from `kmalloc`. -/
def vfsForkFds (b : Backends τ ν) (parent : FdTable) : FdTable × Backends τ ν :=
  forkLoop parent (List.finRange maxFds) (fun _ => 0) b

/-- One round of the loop of `vfs_exit_fds` (lines 565–574). -/
def exitFd (b : Backends τ ν) (table : FdTable) (i : Fin maxFds) : FdTable × Backends τ ν :=
  if socketHandleValid b.sockets (table i) then
    (Function.update table i emptyHandle,
      { b with sockets := (socketClose b.sockets (table i)).2 })
  else if table i ≥ 0 then
    (Function.update table i emptyHandle,
      { b with openFiles := (fat16Close b.openFiles (table i)).2 })
  else if table i < emptyHandle then
    (Function.update table i emptyHandle, (deviceClose b (table i)).2)
  else (table, b)

/-- The loop of `vfs_exit_fds`, over the given slots. -/
def exitLoop : List (Fin maxFds) → FdTable → Backends τ ν → FdTable × Backends τ ν
  | [], table, b => (table, b)
  | i :: is, table, b => let (table, b) := exitFd b table i; exitLoop is table b

/-- `vfs_exit_fds` (lines 560–576). -/
def vfsExitFds (b : Backends τ ν) (table : FdTable) : FdTable × Backends τ ν :=
  exitLoop (List.finRange maxFds) table b

/-- `vfs_bind_tty` (lines 527–538). -/
def vfsBindTty (table : FdTable) (tty : ℤ) : FdTable :=
  let tty := if 0 ≤ tty ∧ tty < ttyCount then tty else 0
  fun i => if i.val < 3 then devTtyBase - tty else table i

/-- `vfs_init_fds` (lines 513–524). -/
def vfsInitFds (tty : ℤ) : FdTable :=
  vfsBindTty (fun _ => emptyHandle) (if 0 ≤ tty ∧ tty < ttyCount then tty else 0)

end Mboot.Vfs
