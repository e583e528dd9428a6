import Mboot.Vfs.Model

/-!
# The objects behind the handles

What the VFS is for: a descriptor stands for one `Object`, and an operation on
the descriptor is that object's own operation. This file states the objects and
their operations and relates the dispatch on handles of `vfs.c` to them.

* `Object.handle` is the handle an object has in the source. Handles of
  different objects differ, but for `/dev/udp` terminals and sockets
  (`Object.handle_inj`).
* `Routes b o`: the dispatch sends the handle of `o` to `o` itself.
* `fileClose_handle`, `fileRead_handle`, `fileWrite_handle`, `dupHandle_handle`:
  where that is so, an operation on the handle is the object's operation.
* `OnlyChanges`, `Transfers`: an object's operation changes no
  other object.
-/

namespace Mboot.Vfs

open Common Scheduler Fat16 Net

variable {τ ν : Type*}

/-- The objects a descriptor can stand for. -/
inductive Object
  | null | zero | full
  | cpuinfo (i : Fin cpuinfoOpenFiles)
  | tty (n : Fin ttyCount)
  | udp (port : ℕ)
  | file (i : Fin maxOpenFiles)
  | socket (i : Fin socketMax)
  deriving DecidableEq

/-- The handle of an object. -/
def Object.handle : Object → ℤ
  | .null => devNull
  | .zero => devZero
  | .full => devFull
  | .cpuinfo i => devCpuinfoBase - i.val
  | .tty n => devTtyBase - n.val
  | .udp port => devUdpBase - port
  | .file i => i.val
  | .socket i => socketHandleFromIndex i

/-- The handle in a descriptor slot; an empty slot holds `-1`. -/
def slotHandle : Option Object → ℤ
  | none => emptyHandle
  | some o => o.handle

/-- An object that is not a `/dev/udp` terminal. -/
def Object.NotUdp : Object → Prop
  | .udp _ => False
  | _ => True

/-- The handle ranges of `vfs.c` (lines 15–21) and `socket.c` (line 13). -/
theorem Object.handle_range (o : Object) :
    match o with
    | .null => o.handle = -2
    | .zero => o.handle = -3
    | .full => o.handle = -4
    | .cpuinfo i => o.handle = -8 - i.val ∧ i.val < 4
    | .tty n => o.handle = -32 - n.val ∧ n.val < 4
    | .udp port => o.handle = -1024 - port
    | .file i => o.handle = i.val ∧ i.val < 8
    | .socket i => o.handle = -4096 - i.val ∧ i.val < 16 := by
  cases o with
  | cpuinfo i => exact ⟨rfl, i.isLt⟩
  | tty n => exact ⟨rfl, n.isLt⟩
  | file i | socket i => exact ⟨rfl, i.isLt⟩
  | _ => rfl

theorem Object.handle_ne_empty (o : Object) : o.handle ≠ emptyHandle := by
  have h := o.handle_range
  show o.handle ≠ -1
  cases o <;> simp only at h <;> omega

theorem Object.handle_inj {o o' : Object} (h : o.NotUdp) (h' : o'.NotUdp)
    (he : o.handle = o'.handle) : o = o' := by
  have hr := o.handle_range
  have hr' := o'.handle_range
  cases o <;> cases o' <;> simp only [Object.NotUdp] at h h' hr hr' <;>
    first
      | rfl
      | (exfalso; omega)
      | (congr 1; apply Fin.ext; omega)

/-! ## Dispatch -/

/-- The dispatch sends the handle of `o` to `o`: a socket is in use, and no
    socket in use has the handle of a `/dev/udp` terminal. -/
def Routes (b : Backends τ ν) : Object → Prop
  | .socket i => (b.sockets i).used = true
  | .udp port => port < 2 ^ 16 ∧ ∀ i : Fin socketMax, port = 3072 + i.val →
      (b.sockets i).used = false
  | _ => True

theorem Routes.valid_socket {b : Backends τ ν} {i : Fin socketMax} (h : Routes b (.socket i)) :
    socketHandleValid b.sockets (Object.socket i).handle = true :=
  socketHandleValid_iff.mpr ⟨i, rfl, h⟩

theorem Routes.not_valid {b : Backends τ ν} {o : Object} (h : Routes b o)
    (ho : ∀ i, o ≠ .socket i) : socketHandleValid b.sockets o.handle = false := by
  rw [Bool.eq_false_iff]
  intro hv
  obtain ⟨i, hi, hu⟩ := socketHandleValid_iff.mp hv
  have hr := o.handle_range
  have hs : o.handle = -4096 - i.val := hi
  have hlt : i.val < 16 := i.isLt
  cases o with
  | socket j => exact ho j rfl
  | udp port =>
    have hp : port = 3072 + i.val := by
      simp only at hr
      omega
    rw [h.2 i hp] at hu
    cases hu
  | _ =>
    simp only at hr
    omega

theorem cpuinfoHandleId_cpuinfo (i : Fin cpuinfoOpenFiles) :
    cpuinfoHandleId (Object.cpuinfo i).handle = some i := by
  have hr := (Object.cpuinfo i).handle_range
  simp only [cpuinfoHandleId, devCpuinfoBase, cpuinfoOpenFiles]
  simp only at hr
  rw [dif_pos (by omega), Option.some.injEq, Fin.ext_iff]
  show (-8 - (Object.cpuinfo i).handle).toNat = i.val
  omega

theorem ttyHandleId_tty (n : Fin ttyCount) : ttyHandleId (Object.tty n).handle = some n := by
  have hr := (Object.tty n).handle_range
  simp only [ttyHandleId, devTtyBase, ttyCount]
  simp only at hr
  rw [dif_pos (by omega), Option.some.injEq, Fin.ext_iff]
  show (-32 - (Object.tty n).handle).toNat = n.val
  omega

theorem cpuinfoHandleId_eq_none {handle : ℤ} (h : handle > -8 ∨ handle ≤ -12) :
    cpuinfoHandleId handle = none := by
  simp only [cpuinfoHandleId, devCpuinfoBase, cpuinfoOpenFiles]
  rw [dif_neg (by omega)]

theorem ttyHandleId_eq_none {handle : ℤ} (h : handle > -32 ∨ handle ≤ -36) :
    ttyHandleId handle = none := by
  simp only [ttyHandleId, devTtyBase, ttyCount]
  rw [dif_neg (by omega)]

/-! ## The objects' own operations -/

/-- Closing an object once. -/
def objectClose (b : Backends τ ν) : Object → ℤ × Backends τ ν
  | .cpuinfo i => cpuinfoClose b (Object.cpuinfo i).handle
  | .file i => ((fat16Close b.openFiles (Object.file i).handle).1,
      { b with openFiles := (fat16Close b.openFiles (Object.file i).handle).2 })
  | .socket i => ((socketClose b.sockets (Object.socket i).handle).1,
      { b with sockets := (socketClose b.sockets (Object.socket i).handle).2 })
  | _ => (0, b)

/-- Taking another reference to an object. -/
def objectDup (b : Backends τ ν) : Object → Backends τ ν
  | .cpuinfo i => (cpuinfoDup b (Object.cpuinfo i).handle).2
  | .file i => { b with openFiles := (fat16Dup b.openFiles (Object.file i).handle).2 }
  | .socket i => { b with sockets := (socketDup b.sockets (Object.socket i).handle).2 }
  | _ => b

/-- Reading from an object. -/
def objectRead (dev : Devices τ ν) (b : Backends τ ν) (size dst : ℕ) :
    Object → Option (ReadOutcome × Backends τ ν)
  | .null => some (.done 0 [], b)
  | .zero | .full => some (.done (int32 size) (List.replicate size 0), b)
  | .cpuinfo i => some (cpuinfoRead dev b (Object.cpuinfo i).handle size dst)
  | .tty n => some (ttyRead dev b n size dst)
  | .udp port => some (udpTtyRead dev b port size dst)
  | .file i =>
    (fat16Read dev.volume b.openFiles (Object.file i).handle size).map fun (ret, bytes, files) =>
      (.done ret bytes, { b with openFiles := files })
  | .socket i =>
    let (out, sockets, servers, hw) :=
      socketRead dev.udpSendLocal b.sockets b.servers b.hardware (Object.socket i).handle dst size
    some (out, { b with sockets := sockets, servers := servers, hardware := hw })

/-- Writing to an object. `/dev/cpuinfo` and disk files refuse. -/
def objectWrite (dev : Devices τ ν) (b : Backends τ ν) (src : ℕ) (data : List UInt8) :
    Object → ℤ × Backends τ ν
  | .null | .zero => (int32 data.length, b)
  | .full | .cpuinfo _ | .file _ => (-1, b)
  | .tty n => ttyWriteBuf dev b n src data
  | .udp port => udpTtyWrite dev b port src data
  | .socket i =>
    let (ret, sockets, hw) :=
      socketWrite dev.udpSendLocal b.sockets b.hardware (Object.socket i).handle src data
    (ret, { b with sockets := sockets, hardware := hw })

section Dispatch

variable {b : Backends τ ν} {handle : ℤ}

theorem fileClose_device (hv : socketHandleValid b.sockets handle = false) (hlt : handle < -1) :
    fileClose b handle = deviceClose b handle := by
  simp only [fileClose, hv, Bool.false_eq_true, if_false]
  exact if_pos hlt

theorem dupHandle_device (hv : socketHandleValid b.sockets handle = false) (hlt : handle < -1) :
    dupHandle b handle = (deviceDup b handle).2 := by
  simp only [dupHandle, hv, Bool.false_eq_true, if_false]
  exact if_pos hlt

theorem fileRead_device (dev : Devices τ ν) (hv : socketHandleValid b.sockets handle = false)
    (hlt : handle < -1) (size dst : ℕ) :
    fileRead dev b handle size dst = some (deviceRead dev b handle size dst) := by
  simp only [fileRead, hv, Bool.false_eq_true, if_false]
  exact if_pos hlt

theorem fileWrite_device (dev : Devices τ ν) (hv : socketHandleValid b.sockets handle = false)
    (hlt : handle < -1) (src : ℕ) (data : List UInt8) :
    fileWrite dev b handle src data = deviceWrite dev b handle src data := by
  simp only [fileWrite, hv, Bool.false_eq_true, if_false]
  exact if_pos hlt

/-- Behind the three devices without state, `device_read` looks at the ranges. -/
theorem deviceRead_of_le (dev : Devices τ ν) (h : handle ≤ -8) (size dst : ℕ) :
    deviceRead dev b handle size dst =
      match ttyHandleId handle with
      | some tty => ttyRead dev b tty size dst
      | none =>
        match cpuinfoHandleId handle with
        | some _ => cpuinfoRead dev b handle size dst
        | none =>
          match udpTtyHandlePort handle with
          | some port => udpTtyRead dev b (port % 2 ^ 16).toNat size dst
          | none => (.done (-1) [], b) := by
  have hnull : handle ≠ devNull := by
    simp only [devNull]
    omega
  have hzero : ¬(handle = devZero ∨ handle = devFull) := by
    simp only [devZero, devFull]
    omega
  exact (if_neg hnull).trans (if_neg hzero)

theorem deviceWrite_of_le (dev : Devices τ ν) (h : handle ≤ -8) (src : ℕ) (data : List UInt8) :
    deviceWrite dev b handle src data =
      match ttyHandleId handle with
      | some tty => ttyWriteBuf dev b tty src data
      | none =>
        match udpTtyHandlePort handle with
        | some port => udpTtyWrite dev b (port % 2 ^ 16).toNat src data
        | none => (-1, b) := by
  have hzero : ¬(handle = devNull ∨ handle = devZero) := by
    simp only [devNull, devZero]
    omega
  have hfull : handle ≠ devFull := by
    simp only [devFull]
    omega
  exact (if_neg hzero).trans (if_neg hfull)

theorem udpTtyHandlePort_udp (port : ℕ) :
    udpTtyHandlePort (Object.udp port).handle = some (port : ℤ) := by
  have hr := (Object.udp port).handle_range
  simp only [udpTtyHandlePort, devUdpBase]
  rw [if_pos (by omega), Option.some.injEq]
  omega

theorem udpTtyHandlePort_eq_none (h : -1024 < handle) : udpTtyHandlePort handle = none := by
  simp only [udpTtyHandlePort, devUdpBase]
  rw [if_neg (by omega)]

theorem not_file_lt_empty (i : Fin maxOpenFiles) : ¬ (Object.file i).handle < emptyHandle := by
  have hr := (Object.file i).handle_range
  simp only [emptyHandle]
  omega

/-- The cast to `uint16_t` keeps a port. -/
theorem Routes.port_mod {port : ℕ} (h : Routes b (.udp port)) :
    ((port : ℤ) % 2 ^ 16).toNat = port := by
  have := h.1
  omega

end Dispatch

section Handle

variable {b : Backends τ ν} {o : Object}

theorem fileClose_handle (h : Routes b o) : fileClose b o.handle = objectClose b o := by
  have hr := o.handle_range
  cases o with
  | socket i => simp only [fileClose, h.valid_socket, if_true, objectClose]
  | file i =>
    have hv := h.not_valid (by simp)
    simp only [fileClose, hv, Bool.false_eq_true, if_false, not_file_lt_empty, objectClose]
  | cpuinfo i =>
    rw [fileClose_device (h.not_valid (by simp)) (by omega), deviceClose,
      cpuinfoHandleId_cpuinfo]
    rfl
  | _ =>
    simp only at hr
    rw [fileClose_device (h.not_valid (by simp)) (by omega), deviceClose,
      cpuinfoHandleId_eq_none (by omega)]
    rfl

theorem dupHandle_handle (h : Routes b o) : dupHandle b o.handle = objectDup b o := by
  have hr := o.handle_range
  cases o with
  | socket i => simp only [dupHandle, h.valid_socket, if_true, objectDup]
  | file i =>
    have hv := h.not_valid (by simp)
    have hpos : (Object.file i).handle ≥ 0 := by omega
    simp only [dupHandle, hv, Bool.false_eq_true, if_false, not_file_lt_empty, hpos, if_true, objectDup]
  | cpuinfo i =>
    rw [dupHandle_device (h.not_valid (by simp)) (by omega), deviceDup, cpuinfoHandleId_cpuinfo]
    rfl
  | _ =>
    simp only at hr
    rw [dupHandle_device (h.not_valid (by simp)) (by omega), deviceDup,
      cpuinfoHandleId_eq_none (by omega)]
    rfl

theorem fileRead_handle (dev : Devices τ ν) (h : Routes b o) (size dst : ℕ) :
    fileRead dev b o.handle size dst = objectRead dev b size dst o := by
  have hr := o.handle_range
  cases o with
  | socket i => simp only [fileRead, h.valid_socket, if_true, objectRead]
  | file i =>
    have hv := h.not_valid (by simp)
    simp only [fileRead, hv, Bool.false_eq_true, if_false, not_file_lt_empty, objectRead]
  | null | zero | full => rw [fileRead_device dev (h.not_valid (by simp)) (by omega)]; rfl
  | cpuinfo i =>
    rw [fileRead_device dev (h.not_valid (by simp)) (by omega), deviceRead_of_le dev (by omega),
      ttyHandleId_eq_none (by omega), cpuinfoHandleId_cpuinfo]
    rfl
  | tty n =>
    rw [fileRead_device dev (h.not_valid (by simp)) (by omega), deviceRead_of_le dev (by omega),
      ttyHandleId_tty]
    rfl
  | udp port =>
    simp only at hr
    rw [fileRead_device dev (h.not_valid (by simp)) (by omega), deviceRead_of_le dev (by omega),
      ttyHandleId_eq_none (by omega), cpuinfoHandleId_eq_none (by omega), udpTtyHandlePort_udp]
    simp only [h.port_mod, objectRead]

theorem fileWrite_handle (dev : Devices τ ν) (h : Routes b o) (src : ℕ) (data : List UInt8) :
    fileWrite dev b o.handle src data = objectWrite dev b src data o := by
  have hr := o.handle_range
  cases o with
  | socket i => simp only [fileWrite, h.valid_socket, if_true, objectWrite]
  | file i =>
    have hv := h.not_valid (by simp)
    simp only [fileWrite, hv, Bool.false_eq_true, if_false, not_file_lt_empty, objectWrite]
  | null | zero | full => rw [fileWrite_device dev (h.not_valid (by simp)) (by omega)]; rfl
  | cpuinfo i =>
    rw [fileWrite_device dev (h.not_valid (by simp)) (by omega), deviceWrite_of_le dev (by omega),
      ttyHandleId_eq_none (by omega), udpTtyHandlePort_eq_none (by omega)]
    rfl
  | tty n =>
    rw [fileWrite_device dev (h.not_valid (by simp)) (by omega), deviceWrite_of_le dev (by omega),
      ttyHandleId_tty]
    rfl
  | udp port =>
    simp only at hr
    rw [fileWrite_device dev (h.not_valid (by simp)) (by omega), deviceWrite_of_le dev (by omega),
      ttyHandleId_eq_none (by omega), udpTtyHandlePort_udp]
    simp only [h.port_mod, objectWrite]

end Handle

/-! ## Frames -/

/-- No object but `o` differs between `b` and `b'`. The state of a `/dev/udp`
    terminal is its entry in `udp_ttys`. -/
structure OnlyChanges (b b' : Backends τ ν) (o : Object) : Prop where
  cpuinfo : ∀ i, o ≠ .cpuinfo i → b'.cpuinfoFiles i = b.cpuinfoFiles i := by intros; rfl
  tty : ∀ n, o ≠ .tty n → b'.ttys n = b.ttys n := by intros; rfl
  udp : ∀ j, (b.udpTtys j).bound = true → o ≠ .udp (b.udpTtys j).port →
    b'.udpTtys j = b.udpTtys j := by intros; rfl
  file : ∀ i, o ≠ .file i → b'.openFiles i = b.openFiles i := by intros; rfl
  socket : ∀ i, o ≠ .socket i → b'.sockets i = b.sockets i := by intros; rfl

theorem OnlyChanges.refl (b : Backends τ ν) (o : Object) : OnlyChanges b b o := {}

section Frames

variable {b : Backends τ ν} {o : Object}

theorem cpuinfoOf_cpuinfo {files : Fin cpuinfoOpenFiles → CpuinfoFile}
    {i : Fin cpuinfoOpenFiles} :
    cpuinfoOf files (Object.cpuinfo i).handle = if (files i).used then some i else none := by
  rw [cpuinfoOf, cpuinfoHandleId_cpuinfo, Option.filter_some]

theorem fileOf_file {files : OpenFiles} {i : Fin maxOpenFiles} :
    fileOf files (Object.file i).handle = if (files i).used then some i else none := by
  have hr := (Object.file i).handle_range
  simp only [fileOf, maxOpenFiles]
  rw [dif_pos (by omega)]
  rfl

theorem socketFromHandle_socket {sockets : Sockets} {i : Fin socketMax} :
    socketFromHandle sockets (Object.socket i).handle =
      if (sockets i).used then some i else none := by
  have hi : socketIndexFromHandle (Object.socket i).handle = some i :=
    socketIndexFromHandle_eq_some.mpr rfl
  rw [socketFromHandle, hi, Option.filter_some]

/-- Only the entry of `port` is changed, and only it can be bound anew. -/
theorem udpTtyForPort_spec {ttys ttys' : UdpTtys} {port : ℕ} {i : Option (Fin udpTtyMaxPorts)}
    (h : udpTtyForPort ttys port = (i, ttys')) :
    (∀ j, (ttys j).bound = true → ttys' j = ttys j) ∧
      ∀ j, i = some j → (ttys' j).bound = true ∧ (ttys' j).port = port ∧
        ((ttys j).bound = true → (ttys j).port = port) := by
  unfold udpTtyForPort at h
  split at h
  · rename_i k hk
    obtain ⟨rfl, rfl⟩ := Prod.mk.inj h
    have hb := List.find?_some hk
    simp only [Bool.and_eq_true, beq_iff_eq] at hb
    exact ⟨fun _ _ => rfl, fun j hj => by cases hj; exact ⟨hb.1, hb.2, fun _ => hb.2⟩⟩
  · split at h
    · rename_i k hk
      obtain ⟨rfl, rfl⟩ := Prod.mk.inj h
      have hb := List.find?_some hk
      simp only [Bool.not_eq_true'] at hb
      refine ⟨fun j hj => Function.update_of_ne (fun he => ?_) _ _, fun j hj => ?_⟩
      · rw [he, hb] at hj
        cases hj
      · cases hj
        rw [Function.update_self, hb]
        exact ⟨rfl, rfl, fun he => by cases he⟩
    · obtain ⟨rfl, rfl⟩ := Prod.mk.inj h
      exact ⟨fun _ _ => rfl, fun j hj => by cases hj⟩

theorem objectClose_frame (b : Backends τ ν) (o : Object) :
    OnlyChanges b (objectClose b o).2 o := by
  cases o with
  | cpuinfo i =>
    rw [objectClose, cpuinfoClose, cpuinfoOf_cpuinfo]
    split_ifs
    · exact { cpuinfo := fun j hj => Function.update_of_ne (fun he => hj (by rw [he])) _ _ }
    · exact .refl b _
  | file i =>
    rw [objectClose, fat16Close, fileOf_file]
    split_ifs
    · dsimp only
      split_ifs <;>
        exact { file := fun j hj => Function.update_of_ne (fun he => hj (by rw [he])) _ _ }
    · exact .refl b _
  | socket i =>
    rw [objectClose, socketClose, socketFromHandle_socket]
    split_ifs
    · dsimp only
      split_ifs <;>
        exact { socket := fun j hj => Function.update_of_ne (fun he => hj (by rw [he])) _ _ }
    · exact .refl b _
  | _ => exact .refl b _

theorem objectDup_frame (b : Backends τ ν) (o : Object) : OnlyChanges b (objectDup b o) o := by
  cases o with
  | cpuinfo i =>
    rw [objectDup, cpuinfoDup, cpuinfoOf_cpuinfo]
    split_ifs
    · exact { cpuinfo := fun j hj => Function.update_of_ne (fun he => hj (by rw [he])) _ _ }
    · exact .refl b _
  | file i =>
    rw [objectDup, fat16Dup, fileOf_file]
    split_ifs
    · exact { file := fun j hj => Function.update_of_ne (fun he => hj (by rw [he])) _ _ }
    · exact .refl b _
  | socket i =>
    rw [objectDup, socketDup, socketFromHandle_socket]
    split_ifs
    · exact { socket := fun j hj => Function.update_of_ne (fun he => hj (by rw [he])) _ _ }
    · exact .refl b _
  | _ => exact .refl b _

/-- A read moves the offset of its file and leaves the rest of the table. -/
theorem fat16Read_files {v : Volume} {files files' : OpenFiles} {fd ret : ℤ} {size : ℕ}
    {bytes : List UInt8} (h : fat16Read v files fd size = some (ret, bytes, files')) :
    files' = files ∨ ∃ i offset, fileOf files fd = some i ∧
      files' = Function.update files i { files i with offset := offset } := by
  unfold fat16Read at h
  split at h
  · cases h
    exact .inl rfl
  · rename_i i hi
    simp only [Option.pure_def, Option.bind_eq_bind] at h
    generalize (if size > (files i).size - (files i).offset then
      (files i).size - (files i).offset else size) = n at h
    split_ifs at h
    · cases h
      exact .inl rfl
    · cases h
      exact .inl rfl
    · cases h
    · obtain ⟨skipped, -, h⟩ := Option.bind_eq_some_iff.mp h
      cases skipped with
      | none =>
        cases h
        exact .inl rfl
      | some cluster =>
        obtain ⟨out, -, h⟩ := Option.bind_eq_some_iff.mp h
        simp only [Option.some.injEq, Prod.mk.injEq] at h
        obtain ⟨-, -, rfl⟩ := h
        exact .inr ⟨i, _, hi, rfl⟩

/-- What a read or a write of an object can do: move an offset, replace the
    state of a terminal or of a stream. -/
inductive Transfers (b : Backends τ ν) : Object → Backends τ ν → Prop
  | nothing (o : Object) : Transfers b o b
  | cpuinfo (i : Fin cpuinfoOpenFiles) (offset : ℕ) : Transfers b (.cpuinfo i)
      { b with cpuinfoFiles :=
          Function.update b.cpuinfoFiles i { b.cpuinfoFiles i with offset := offset } }
  | tty (n : Fin ttyCount) (t : τ) (hw : ν) : Transfers b (.tty n)
      { b with ttys := Function.update b.ttys n t, hardware := hw }
  | udpBind {port : ℕ} {i : Option (Fin udpTtyMaxPorts)} {ttys : UdpTtys}
      (h : udpTtyForPort b.udpTtys port = (i, ttys)) :
      Transfers b (.udp port) { b with udpTtys := ttys }
  | udp {port : ℕ} {i : Fin udpTtyMaxPorts} {ttys : UdpTtys}
      (h : udpTtyForPort b.udpTtys port = (some i, ttys)) (st : Stream) (servers : Servers)
      (hw : ν) : Transfers b (.udp port)
      { b with udpTtys := Function.update ttys i { ttys i with stream := st },
               servers := servers, hardware := hw }
  | file (i : Fin maxOpenFiles) (offset : ℕ) : Transfers b (.file i)
      { b with openFiles :=
          Function.update b.openFiles i { b.openFiles i with offset := offset } }
  | socket (i : Fin socketMax) (st : Stream) (servers : Servers) (hw : ν) :
      Transfers b (.socket i)
      { b with sockets := Function.update b.sockets i { b.sockets i with stream := st },
               servers := servers, hardware := hw }

theorem objectRead_transfers {dev : Devices τ ν} {b' : Backends τ ν} {size dst : ℕ}
    {out : ReadOutcome} (h : objectRead dev b size dst o = some (out, b')) :
    Transfers b o b' := by
  cases o with
  | cpuinfo i =>
    rw [objectRead, Option.some.injEq, cpuinfoRead, cpuinfoOf_cpuinfo] at h
    by_cases hu : (b.cpuinfoFiles i).used = true
    · rw [if_pos hu] at h
      dsimp only at h
      split_ifs at h <;> cases h
      · exact .nothing _
      · exact .cpuinfo i _
    · rw [if_neg hu] at h
      cases h
      exact .nothing _
  | tty n =>
    cases h
    exact .tty n _ _
  | udp port =>
    rw [objectRead, Option.some.injEq, udpTtyRead] at h
    split at h
    · rename_i ttys ht
      cases h
      exact .udpBind ht
    · rename_i i ttys ht
      split_ifs at h <;> cases h
      · exact .udpBind ht
      · exact .udp ht _ _ _
  | file i =>
    obtain ⟨⟨ret, bytes, files⟩, hread, hb⟩ := Option.map_eq_some_iff.mp h
    cases hb
    obtain rfl | ⟨k, offset, hk, rfl⟩ := fat16Read_files hread
    · exact .nothing _
    · rw [fileOf_file] at hk
      split_ifs at hk
      cases hk
      exact .file i offset
  | socket i =>
    rw [objectRead, Option.some.injEq, socketRead, socketFromHandle_socket] at h
    by_cases hu : (b.sockets i).used = true
    · rw [if_pos hu] at h
      dsimp only at h
      split_ifs at h <;> cases h
      · exact .nothing _
      · exact .socket i _ _ _
    · rw [if_neg hu] at h
      cases h
      exact .nothing _
  | _ =>
    cases h
    exact .nothing _

theorem objectWrite_transfers (dev : Devices τ ν) (b : Backends τ ν) (src : ℕ)
    (data : List UInt8) (o : Object) : Transfers b o (objectWrite dev b src data o).2 := by
  cases o with
  | tty n => exact .tty n _ _
  | udp port =>
    rw [objectWrite, udpTtyWrite]
    split
    · rename_i ttys ht
      exact .udpBind ht
    · rename_i i ttys ht
      split_ifs
      · exact .udpBind ht
      · exact .udp ht _ b.servers _
  | socket i =>
    rw [objectWrite, socketWrite, socketFromHandle_socket]
    by_cases hu : (b.sockets i).used = true
    · rw [if_pos hu]
      dsimp only
      split_ifs
      · exact .nothing _
      · exact .socket i _ b.servers _
    · rw [if_neg hu]
      exact .nothing _
  | _ => exact .nothing _

theorem Transfers.onlyChanges {b' : Backends τ ν} (h : Transfers b o b') :
    OnlyChanges b b' o := by
  cases h with
  | nothing => exact .refl b o
  | cpuinfo i =>
    exact { cpuinfo := fun j hj => Function.update_of_ne (fun he => hj (by rw [he])) _ _ }
  | tty n => exact { tty := fun j hj => Function.update_of_ne (fun he => hj (by rw [he])) _ _ }
  | udpBind ht => exact { udp := fun j hb _ => (udpTtyForPort_spec ht).1 j hb }
  | udp ht =>
    obtain ⟨hkeep, hi⟩ := udpTtyForPort_spec ht
    refine { udp := fun j hb hj => ?_ }
    rw [← hkeep j hb]
    refine Function.update_of_ne (fun he => hj ?_) _ _
    subst he
    rw [(hi j rfl).2.2 hb]
  | file i => exact { file := fun j hj => Function.update_of_ne (fun he => hj (by rw [he])) _ _ }
  | socket i =>
    exact { socket := fun j hj => Function.update_of_ne (fun he => hj (by rw [he])) _ _ }

end Frames

end Mboot.Vfs
