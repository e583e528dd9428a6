import Mboot.Disk.Lock
import Mboot.Net.Network
import Mboot.Net.Ports
import Mboot.Tty.Line
import Mboot.Common.Waiting

/-!
# Tasks that wait for input

The loops in which a task waits for input, in `socket_read` and `socket_recvfrom`
(`stage2/net/socket.c`) and in `tty_pop_input` (`stage2/dev/tty.c`), and the code that brings
it: `eth_process_packet` down to `udp_server_enqueue` and `socket_icmp_rx`, `tty_handle_key`.

* Each loop tests with interrupts disabled and calls `scheduler_block` before they are
  enabled again: a round of a loop is one step. Behind the test `tty_pop_input` enables
  interrupts and only then takes the key, so that is another step.
* A frame received in the interrupt handler is one step with the wake it ends in.
  `arp_resolve` calls `e1k_drain_rx` from a system call with interrupts enabled; a frame
  it receives is stored in one step and its readers are woken in another.
* A reader holds a descriptor of the socket it reads, so `sock` stays valid during the
  call and is looked up from the handle in every round.
* `socket_write` and `socket_sendto` change neither a queue nor what can be read of a
  socket, and are left out.
-/

namespace Mboot.Wait

open Common Scheduler Net Tty Disk

/-- What a reader waits for. -/
inductive Resource
  /-- a datagram for a port -/
  | port (p : ℕ)
  /-- an echo reply for a raw socket -/
  | reply (i : Fin socketMax)
  /-- a key at a terminal -/
  | key (id : ℤ)
  deriving DecidableEq

/-- Where `sockets[i]` and the terminals are. -/
structure Addresses where
  socket : Fin socketMax → ℕ
  tty : ℤ → ℕ
  socket_ne : ∀ i, socket i ≠ 0
  tty_ne : ∀ id, tty id ≠ 0

/-- The object the readers sleep on, and the wakes are for. A port number is cast to a
    pointer. -/
def Addresses.obj (a : Addresses) : Resource → ℕ
  | .port p => p
  | .reply i => a.socket i
  | .key id => a.tty id

/-- A call that may sleep. -/
inductive Call
  | read (handle : ℤ) (buf len : ℕ)
  | recvfrom (handle : ℤ) (buf len : ℕ)
  | popInput (id : ℤ)
  deriving DecidableEq

/-- Where a task is. -/
inductive Place
  | elsewhere
  /-- at the head of the loop of a call -/
  | loop (c : Call)
  /-- in the `scheduler_block` of the loop -/
  | asleep (c : Call) (r : Resource)
  /-- in `tty_pop_input`, behind the test -/
  | passed (id : ℤ)
  /-- in `e1k_drain_rx` below `arp_resolve`, before the wake -/
  | stored (r : Resource)
  deriving DecidableEq

/-- The call a task is in. -/
def Place.call? : Place → Option Call
  | .loop c => some c
  | .asleep c _ => some c
  | _ => none

/-- The socket of a call. -/
def Call.handle? : Call → Option ℤ
  | .read handle _ _ => some handle
  | .recvfrom handle _ _ => some handle
  | .popInput _ => none

structure Readers where
  sched : Sched
  net : NetState
  wire : Option Wire
  console : Console
  place : ℕ → Place

/-- The calls that open, bind and close sockets, and an open and a read of `/dev/udp`. -/
inductive SocketCall
  | create (domain type protocol : ℤ)
  | bind (handle : ℤ) (port : UInt16)
  | dup (handle : ℤ)
  | close (handle : ℤ)
  | udpBind (port : UInt16)
  | udpRecv (port maxLen : ℕ)

inductive WaitEvent
  /-- a tick or a wake at any time, or another call of a task that is not in these -/
  | sched (e : Event)
  /-- the receive interrupt handles a frame -/
  | frame (bytes : List UInt8)
  /-- the current task polls the adapter in `arp_resolve` and stores a frame -/
  | poll (bytes : List UInt8)
  /-- and wakes the readers -/
  | wakeReaders
  | key (scancode ascii : UInt8)
  | enter (c : Call)
  /-- one round of the loop; `frame` is where a sleep saves the registers -/
  | round (frame : ℕ)
  /-- the end of `tty_pop_input` -/
  | take
  | socket (c : SocketCall)
  | ttyWrite (id : ℤ) (buf : List UInt8)

namespace Readers

/-- The place of the current task. -/
abbrev here (s : Readers) : Place := s.place s.sched.currentTask

/-- The current task goes on at `p`. -/
def goto (s : Readers) (p : Place) : Readers :=
  { s with place := Function.update s.place s.sched.currentTask p }

/-! ## Input -/

/-- The socket whose readers `socket_icmp_rx` wakes (socket.c lines 318–338). -/
def replySocket (sockets : Sockets) (frame : List UInt8) (icmpData icmpLen : ℕ) :
    Option (Fin socketMax) :=
  if icmpLen < icmpEchoHdrSize then none
  else do
    let type ← frame[icmpData]?
    let code ← frame[icmpData + 1]?
    if type ≠ icmpEchoReply ∨ code ≠ 0 then none
    else socketForReply sockets (← readBe16 frame (icmpData + 4))

/-- Whose readers the handler of a frame wakes: those of the port of the queue it
    appends to (udp.c line 137) or those of the socket it fills (socket.c line 338). -/
def signalled (s : NetState) (frame : List UInt8) : Rx → Option Resource
  | .udp d => if hasRoom s.servers d.dstPort then some (.port d.dstPort) else none
  | .icmp _ data len => (replySocket s.sockets frame data len).map .reply
  | _ => none

/-- `eth_process_packet`, and whose readers are to be woken. -/
def receive (host : Host) (s : NetState) (bytes : List UInt8) :
    Option (NetState × Option Resource) := do
  let (frame, r) ← ethProcessPacket host bytes
  return (← handle host s frame r, signalled s frame r)

/-- `scheduler_wake` for the readers of `r`. -/
def wake (a : Addresses) (s : Readers) (r : Resource) : Option Readers :=
  (schedulerWake s.sched (a.obj r)).map fun sched => { s with sched }

/-- `scheduler_block` in the loop of `c`. -/
def sleep (a : Addresses) (s : Readers) (c : Call) (r : Resource) (frame : ℕ) : Option Readers :=
  (schedulerBlock s.sched (a.obj r) frame).map fun sched =>
    { s.goto (.asleep c r) with sched }

/-! ## The loops -/

/-- What a round of `socket_recvfrom` that finds nothing sleeps for (socket.c lines 279
    and 303). -/
def recvfromWaits (sockets : Sockets) (handle : ℤ) : Option Resource :=
  (socketFromHandle sockets handle).map fun i =>
    if (sockets i).isRaw then .reply i else .port (sockets i).localPort

/-- What a round of `socket_read` that finds nothing sleeps for (socket.c line 189). -/
def readWaits (sockets : Sockets) (handle : ℤ) : Option Resource :=
  (socketFromHandle sockets handle).map fun i => .port (sockets i).localPort

/-- One round of the loop of a call. -/
def roundOf (a : Addresses) (s : Readers) (frame : ℕ) : Call → Option Readers
  | .read handle buf len =>
    let (out, sockets, servers, wire) :=
      socketRead wireSend s.net.sockets s.net.servers s.wire handle buf len
    let s' := { s with net := { s.net with sockets, servers }, wire }
    match out with
    | .done _ _ => some (s'.goto .elsewhere)
    | .waiting => do s'.sleep a (.read handle buf len) (← readWaits s.net.sockets handle) frame
  | .recvfrom handle buf len =>
    let (out, sockets, servers, wire) :=
      socketRecvfrom s.net.sockets s.net.servers s.wire handle buf len
    let s' := { s with net := { s.net with sockets, servers }, wire }
    match out with
    | .done _ _ _ => some (s'.goto .elsewhere)
    | .waiting => do
      s'.sleep a (.recvfrom handle buf len) (← recvfromWaits s.net.sockets handle) frame
  | .popInput id =>
    if ttyHasInput (s.console.ttys id) then some (s.goto (.passed id))
    else s.sleep a (.popInput id) (.key id) frame

/-! ## Other calls -/

/-- The sockets and the queues after a call. -/
def socketCall (s : Readers) : SocketCall → Sockets × Servers
  | .create domain type protocol =>
    ((socketCreate s.net.sockets domain type protocol).2, s.net.servers)
  | .bind handle port => (socketBind s.net.sockets s.net.servers handle port.toNat).2
  | .dup handle => ((socketDup s.net.sockets handle).2, s.net.servers)
  | .close handle => ((socketClose s.net.sockets handle).2, s.net.servers)
  | .udpBind port => (s.net.sockets, (udpServerBind s.net.servers port.toNat).2)
  | .udpRecv port maxLen => (s.net.sockets,
      ((udpServerRecv s.net.servers port maxLen).map fun r => r.2.2.2).getD s.net.servers)

/-- One step; `none` when the current task is somewhere else. -/
def step (a : Addresses) (host : Host) (s : Readers) : WaitEvent → Option Readers
  | .sched e =>
    if IsInterrupt e ∨ s.here matches .elsewhere then
      (Scheduler.step s.sched e).map fun sched => { s with sched }
    else none
  | .frame bytes => do
    let (net, signal) ← receive host s.net bytes
    match signal with
    | none => return { s with net }
    | some r => wake a { s with net } r
  | .poll bytes =>
    if s.here matches .elsewhere then do
      let (net, signal) ← receive host s.net bytes
      match signal with
      | none => return { s with net }
      | some r => return { s with net }.goto (.stored r)
    else none
  | .wakeReaders =>
    match s.here with
    | .stored r => wake a (s.goto .elsewhere) r
    | _ => none
  | .key scancode ascii =>
    (ttyHandleKey a.tty s.console s.sched scancode ascii).map fun (console, sched) =>
      { s with console, sched }
  | .enter c => if s.here matches .elsewhere then some (s.goto (.loop c)) else none
  | .round frame =>
    s.here.call?.bind (s.roundOf a frame)
  | .take =>
    match s.here with
    | .passed id =>
      some ({ s with console := s.console.setTty id (ttyTakeInput (s.console.ttys id)).2 }.goto
        .elsewhere)
    | _ => none
  | .socket c =>
    if s.here matches .elsewhere then
      let (sockets, servers) := s.socketCall c
      some { s with net := { s.net with sockets, servers } }
    else none
  | .ttyWrite id buf =>
    (ttyWriteBuf s.console id buf).map fun (_, console) => { s with console }

/-! ## Runs -/

/-- The steps considered.

    * A frame has at most 1514 bytes, so that its payload fits a slot of the queue.
    * A reader that has passed the test of `tty_pop_input` finds its key still there, as
      it does if nobody else reads the terminal or clears it.
    * `read` is not used on a raw socket, where it would leave the rest of a datagram in
      the buffer of the echo replies.
    * A socket is not freed as long as a task is in a call on it. -/
def Allowed (s : Readers) : WaitEvent → Prop
  | .frame bytes => bytes.length ≤ 1514
  | .poll bytes => bytes.length ≤ 1514
  | .take =>
    match s.here with
    | .passed id => ttyHasInput (s.console.ttys id)
    | _ => True
  | .round _ =>
    match s.here.call? with
    | some (.read handle _ _) => ∀ i, socketFromHandle s.net.sockets handle = some i →
        (s.net.sockets i).isRaw = false
    | _ => True
  | .socket (.close handle) =>
    ∀ t < s.sched.count, (s.place t).call?.bind Call.handle? = some handle →
      ∀ i, socketFromHandle s.net.sockets handle = some i → 1 < (s.net.sockets i).refs
  | _ => True

/-- The kernel behind its initialisation. -/
def start (sched : Sched) (console : Console) (wire : Option Wire) : Readers where
  sched := sched
  net := NetState.boot
  wire := wire
  console := console
  place := fun _ => .elsewhere

end Readers

end Mboot.Wait
