import Mboot.Net.Model

/-!
# Sockets

Model of the socket table of `stage2/net/socket.c`. The byte stream a bound
socket offers to `read` and `write` is the one a `/dev/udp` terminal offers
(`stage2/vfs.c`), so both use `Stream`.

* `inbuf` is the first `in_len` bytes of the source's array and `outbuf` the
  first `out_len`; what lies behind is never read.
* A read that finds no datagram goes to sleep or polls again. One round of its
  loop is modelled: it ends with `ReadOutcome.waiting` and can be repeated
  after other steps.
* `udp_send_local` belongs to the network below and is a parameter `send`.
-/

namespace Mboot.Net

open Common

/-- The value of a 32-bit `int` after a computation with result `z`. -/
def int32 (z : ℤ) : ℤ := Int.bmod z (2 ^ 32)

/-- How one round of a read ends: with a result and the bytes stored at the
    destination, or waiting for input. -/
inductive ReadOutcome
  | done (ret : ℤ) (bytes : List UInt8)
  | waiting
  deriving DecidableEq

/-- `udp_send_local`: source port, destination address and port, payload. -/
abbrev Send (ν : Type*) := ν → ℕ → Ip → ℕ → List UInt8 → ℤ × ν

/-! ## Byte streams over UDP -/

/-- The stream fields shared by `socket_t` and `udp_tty_t`. -/
structure Stream where
  hasPeer : Bool
  peerIp : Ip
  peerPort : ℕ
  inbuf : List UInt8
  inPos : ℕ
  outbuf : List UInt8
  deriving DecidableEq

/-- The stream fields after `memset`. -/
def Stream.zero : Stream := ⟨false, ⟨0, 0, 0, 0⟩, 0, [], 0, []⟩

/-- `SOCKET_BUF_SIZE` and `UDP_TTY_BUF_SIZE`. -/
abbrev streamBufSize : ℕ := 1472

/-- `SOCKET_OUT_SIZE` and `UDP_TTY_OUT_SIZE`. -/
abbrev streamOutSize : ℕ := 2048

section Stream

variable {ν : Type*} (send : Send ν)

/-- `socket_flush_output` (socket.c lines 80–87) and `udp_tty_flush_output`
    (vfs.c lines 136–143). -/
def flushOutput (port : ℕ) (st : Stream) (net : ν) : Stream × ν :=
  if !st.hasPeer || st.outbuf.length == 0 then (st, net)
  else
    let (ret, net) := send net port st.peerIp st.peerPort st.outbuf
    if ret = 0 then ({ st with outbuf := [] }, net) else (st, net)

/-- One round of the receive loop (socket.c lines 173–190, vfs.c lines
    257–269); `none` when no datagram is queued. -/
def pollStream (port : ℕ) (servers : Servers) (st : Stream) (net : ν) :
    Option (Stream × Servers × ν) :=
  match udpServerRecv servers port streamBufSize with
  | none => none
  | some (ip, srcPort, payload, servers) =>
    let st := { st with hasPeer := true, peerIp := ip, peerPort := srcPort, inbuf := payload,
                        inPos := 0 }
    let (st, net) := flushOutput send port st net
    some (st, servers, net)

/-- The copy at the end of a read (socket.c lines 192–196, vfs.c lines 271–275). -/
def drainStream (st : Stream) (len : ℕ) : ReadOutcome × Stream :=
  let bytes := (st.inbuf.drop st.inPos).take len
  (.done bytes.length bytes, { st with inPos := st.inPos + bytes.length })

/-- A read on a stream, after the argument checks. -/
def streamRead (port : ℕ) (servers : Servers) (st : Stream) (net : ν) (len : ℕ) :
    ReadOutcome × Stream × Servers × ν :=
  if st.inPos < st.inbuf.length then
    let (out, st) := drainStream st len
    (out, st, servers, net)
  else
    match pollStream send port servers st net with
    | none => (.waiting, { st with inbuf := [], inPos := 0 }, servers, net)
    | some (st, servers, net) =>
      let (out, st) := drainStream st len
      (out, st, servers, net)

/-- A write on a stream, after the argument checks (socket.c lines 204–218,
    vfs.c lines 329–340). The length of a datagram is cast to `uint16_t`. -/
def streamWrite (port : ℕ) (st : Stream) (net : ν) (src : List UInt8) : ℤ × Stream × ν :=
  if st.hasPeer then
    let (ret, net) := send net port st.peerIp st.peerPort (src.take (src.length % 2 ^ 16))
    (if ret = 0 then int32 src.length else -1, st, net)
  else
    let room := streamOutSize - st.outbuf.length
    (int32 src.length, { st with outbuf := st.outbuf ++ src.take room }, net)

end Stream

/-! ## The socket table -/

/-- `SOCKET_MAX` (socket.c line 12). -/
abbrev socketMax : ℕ := 16

/-- `SOCKET_HANDLE_BASE` (socket.c line 13). -/
abbrev socketHandleBase : ℤ := -4096

/-- `socket_t` (socket.c lines 17–36). -/
structure Socket where
  used : Bool
  refs : ℤ
  domain : ℤ
  type : ℤ
  protocol : ℤ
  localPort : ℕ
  bound : Bool
  isRaw : Bool
  icmpIdentifier : ℕ
  icmpSequence : ℕ
  stream : Stream
  deriving DecidableEq

/-- A socket after `memset(sock, 0, sizeof(*sock))`. -/
def Socket.zero : Socket := ⟨false, 0, 0, 0, 0, 0, false, false, 0, 0, Stream.zero⟩

/-- `sockets` (socket.c line 38). -/
abbrev Sockets := Fin socketMax → Socket

/-- `AF_INET` (inc/net/socket.h). -/
abbrev afInet : ℤ := 2

/-- `SOCK_DGRAM` (inc/net/socket.h). -/
abbrev sockDgram : ℤ := 2

/-- `SOCK_RAW` (inc/net/socket.h). -/
abbrev sockRaw : ℤ := 3

/-- `IPPROTO_ICMP` (inc/net/socket.h). -/
abbrev ipprotoIcmp : ℤ := 1

/-- `socket_index_from_handle` (socket.c lines 40–47). -/
def socketIndexFromHandle (handle : ℤ) : Option (Fin socketMax) :=
  let index := socketHandleBase - handle
  if h : index < 0 ∨ index ≥ socketMax then none else some ⟨index.toNat, by omega⟩

/-- `socket_handle_from_index` (socket.c lines 49–51). -/
def socketHandleFromIndex (index : Fin socketMax) : ℤ := socketHandleBase - index.val

/-- `socket_from_handle` (socket.c lines 53–58). -/
def socketFromHandle (sockets : Sockets) (handle : ℤ) : Option (Fin socketMax) :=
  (socketIndexFromHandle handle).filter fun i => (sockets i).used

/-- `socket_handle_valid` (socket.c lines 345–347). -/
def socketHandleValid (sockets : Sockets) (handle : ℤ) : Bool :=
  (socketFromHandle sockets handle).isSome

theorem socketIndexFromHandle_eq_some {handle : ℤ} {i : Fin socketMax} :
    socketIndexFromHandle handle = some i ↔ handle = socketHandleFromIndex i := by
  have hi : i.val < 16 := i.isLt
  simp only [socketIndexFromHandle, socketHandleFromIndex, socketHandleBase, socketMax]
  split_ifs with h
  · simp only [false_iff]
    omega
  · simp only [Option.some.injEq, Fin.ext_iff]
    omega

theorem socketFromHandle_eq_some {sockets : Sockets} {handle : ℤ} {i : Fin socketMax} :
    socketFromHandle sockets handle = some i ↔
      handle = socketHandleFromIndex i ∧ (sockets i).used = true := by
  rw [socketFromHandle, Option.filter_eq_some_iff, socketIndexFromHandle_eq_some]

/-- A handle is valid exactly for a socket that is in use. -/
theorem socketHandleValid_iff {sockets : Sockets} {handle : ℤ} :
    socketHandleValid sockets handle = true ↔
      ∃ i, handle = socketHandleFromIndex i ∧ (sockets i).used = true := by
  simp only [socketHandleValid, Option.isSome_iff_exists, socketFromHandle_eq_some]

/-- The checks at the head of `socket_create` (lines 94–101). -/
def socketArgsOk (domain type protocol : ℤ) : Bool :=
  domain == afInet && !(type == sockDgram && protocol != 0) &&
    !(type == sockRaw && protocol != ipprotoIcmp) && !(type != sockDgram && type != sockRaw)

/-- The slot `socket_create` takes. -/
def firstFreeSocket (sockets : Sockets) : Option (Fin socketMax) :=
  (List.finRange socketMax).find? fun i => !(sockets i).used

/-- `socket_create` (socket.c lines 93–122). -/
def socketCreate (sockets : Sockets) (domain type protocol : ℤ) : ℤ × Sockets :=
  if !socketArgsOk domain type protocol then (-1, sockets)
  else
    match firstFreeSocket sockets with
    | none => (-1, sockets)
    | some i =>
      let sock := { Socket.zero with used := true, refs := 1, domain, type, protocol }
      let sock :=
        if type = sockRaw then
          { sock with isRaw := true, icmpIdentifier := 0x1000 + i.val, icmpSequence := 1 }
        else sock
      (socketHandleFromIndex i, Function.update sockets i sock)

/-- `socket_dup` (socket.c lines 125–131). -/
def socketDup (sockets : Sockets) (handle : ℤ) : ℤ × Sockets :=
  match socketFromHandle sockets handle with
  | none => (-1, sockets)
  | some i =>
    (0, Function.update sockets i { sockets i with refs := int32 ((sockets i).refs + 1) })

/-- `socket_close` (socket.c lines 135–144). -/
def socketClose (sockets : Sockets) (handle : ℤ) : ℤ × Sockets :=
  match socketFromHandle sockets handle with
  | none => (-1, sockets)
  | some i =>
    let refs := if (sockets i).refs > 0 then (sockets i).refs - 1 else (sockets i).refs
    if refs = 0 then (0, Function.update sockets i Socket.zero)
    else (0, Function.update sockets i { sockets i with refs := refs })

/-- `socket_bind` (socket.c lines 147–164), for the port in a valid address. -/
def socketBind (sockets : Sockets) (servers : Servers) (handle : ℤ) (port : ℕ) :
    ℤ × Sockets × Servers :=
  match socketFromHandle sockets handle with
  | none => (-1, sockets, servers)
  | some i =>
    if port = 0 then (-1, sockets, servers)
    else
      let (ret, servers) := udpServerBind servers port
      if ret < 0 then (-1, sockets, servers)
      else (0, Function.update sockets i { sockets i with localPort := port, bound := true },
        servers)

section Transfer

variable {ν : Type*} (send : Send ν)

/-- `socket_read` (socket.c lines 166–197). -/
def socketRead (sockets : Sockets) (servers : Servers) (net : ν) (handle : ℤ) (buf len : ℕ) :
    ReadOutcome × Sockets × Servers × ν :=
  match socketFromHandle sockets handle with
  | none => (.done (-1) [], sockets, servers, net)
  | some i =>
    if !(sockets i).bound || buf == 0 || len > 65535 then (.done (-1) [], sockets, servers, net)
    else
      let (out, st, servers, net) :=
        streamRead send (sockets i).localPort servers (sockets i).stream net len
      (out, Function.update sockets i { sockets i with stream := st }, servers, net)

/-- `socket_write` (socket.c lines 199–219) of the bytes `src` at `buf`. -/
def socketWrite (sockets : Sockets) (net : ν) (handle : ℤ) (buf : ℕ) (src : List UInt8) :
    ℤ × Sockets × ν :=
  match socketFromHandle sockets handle with
  | none => (-1, sockets, net)
  | some i =>
    if !(sockets i).bound || buf == 0 || src.length > 65535 then (-1, sockets, net)
    else
      let (ret, st, net) := streamWrite send (sockets i).localPort (sockets i).stream net src
      (ret, Function.update sockets i { sockets i with stream := st }, net)

end Transfer

/-! ## Echo replies -/

/-- `sizeof(icmp_echo_hdr)` (inc/net/icmp.h). -/
abbrev icmpEchoHdrSize : ℕ := 8

/-- `ICMP_ECHO_REPLY` (inc/net/icmp.h). -/
abbrev icmpEchoReply : UInt8 := 0

/-- The socket whose reply buffer `socket_icmp_rx` fills. -/
def socketForReply (sockets : Sockets) (identifier : ℕ) : Option (Fin socketMax) :=
  (List.finRange socketMax).find? fun i =>
    (sockets i).used && (sockets i).isRaw && (sockets i).icmpIdentifier == identifier

/-- `socket_icmp_rx` (socket.c lines 314–343) on the message of `icmpLen` bytes
    at `icmpData` of a frame, without its final wake. `none` stands for a read
    outside the frame. -/
def socketIcmpRx (sockets : Sockets) (srcIp : Ip) (frame : List UInt8) (icmpData icmpLen : ℕ) :
    Option (ℤ × Sockets) :=
  if icmpLen < icmpEchoHdrSize then some (-1, sockets)
  else do
    let type ← frame[icmpData]?
    let code ← frame[icmpData + 1]?
    if type ≠ icmpEchoReply ∨ code ≠ 0 then return (-1, sockets)
    let identifier ← readBe16 frame (icmpData + 4)
    match socketForReply sockets identifier with
    | none => return (-1, sockets)
    | some i =>
      let take := if icmpLen < streamBufSize then icmpLen else streamBufSize
      let bytes ← bytesAt frame icmpData take
      let stream := { (sockets i).stream with
        hasPeer := true, peerIp := srcIp, inbuf := bytes, inPos := 0 }
      return (0, Function.update sockets i { sockets i with stream })

end Mboot.Net
