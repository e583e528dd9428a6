import Mboot.Net.Socket
import Mboot.Net.Wire

/-!
# The whole receive path

`eth_process_packet` together with the handlers it ends in: `arp_process_packet`
(`stage2/net/arp.c`), `icmp_process_packet` (`stage2/net/icmp.c`) with
`socket_icmp_rx`, and the queue of a UDP server.

* As in the rest of the model a read outside the frame gives `none`. What the
  source only prints is read here too, or is part of a header that is read.
* The frame is memory of its own. `e1k_send` copies a reply out of a frame that
  `arp_send_reply` allocates and fills.

Main result:

* `receive_path_in_bounds`: on every frame and in every state of the network
  code the whole path reads only inside the frame, and the frame holds the same
  bytes afterwards.
-/

namespace Mboot.Net

/-! ## Handlers -/

/-- What the receive path changes: the single ARP cache entry, the sockets and
    servers, and the frames handed to `e1k_send`, newest first. -/
structure NetState where
  arpCache : Option (Ip × Mac)
  sockets : Sockets
  servers : Servers
  sent : List (List UInt8)

/-- `sizeof(arp_pkt)` (inc/net/arp.h). -/
abbrev arpPktSize : ℕ := 28

/-- The hardware address at `i`. -/
def readMac (frame : List UInt8) (i : ℕ) : Option Mac := do
  return ⟨← frame[i]?, ← frame[i + 1]?, ← frame[i + 2]?, ← frame[i + 3]?, ← frame[i + 4]?,
    ← frame[i + 5]?⟩

/-- `ipv4_is_local_address` (ipv4.c lines 49–59). -/
def ipv4IsLocalAddress (host : Host) (ip : Ip) : Bool := host.localIp == some ip

/-- `arp_send_reply` (arp.c lines 97–129): the frame handed to `e1k_send`. -/
def arpSendReply (host : Host) (targetMac : Mac) (senderIp targetIp : Ip) : List UInt8 :=
  let packet := targetMac.bytes ++ host.mac.bytes ++ be16 0x0806 ++
    be16 1 ++ be16 0x0800 ++ [6, 4] ++ be16 2 ++ host.mac.bytes ++ senderIp.bytes ++
    targetMac.bytes ++ targetIp.bytes
  packet ++ List.replicate (60 - packet.length) 0

/-- `arp_process_packet` (arp.c lines 34–55) with `arp_update_cache`, on the
    packet of `len` bytes at `data`. -/
def arpProcessPacket (host : Host) (s : NetState) (frame : List UInt8) (data len : ℕ) :
    Option NetState :=
  if len < arpPktSize then some s
  else do
    let opcode ← readBe16 frame (data + 6)
    let senderMac ← readMac frame (data + 8)
    let senderIp ← readIp frame (data + 14)
    let targetIp ← readIp frame (data + 24)
    -- requests and replies alike are learned from
    let s := { s with arpCache := some (senderIp, senderMac) }
    if opcode = 1 ∧ ipv4IsLocalAddress host targetIp then
      return { s with sent := arpSendReply host senderMac targetIp senderIp :: s.sent }
    else return s

/-- `icmp_process_packet` (icmp.c lines 12–32) with the IPv4 header at `ipv4`. -/
def icmpProcessPacket (s : NetState) (frame : List UInt8) (ipv4 icmpData icmpLen : ℕ) :
    Option NetState :=
  if icmpLen < icmpEchoHdrSize then some s
  else do
    let type ← frame[icmpData]?
    let code ← frame[icmpData + 1]?
    if type = icmpEchoReply ∧ code = 0 then
      let srcIp ← readIp frame (ipv4 + 12)
      -- identifier and sequence are printed
      let _ ← readBe16 frame (icmpData + 4)
      let _ ← readBe16 frame (icmpData + 6)
      let (_, sockets) ← socketIcmpRx s.sockets srcIp frame icmpData icmpLen
      return { s with sockets }
    else return s

/-- The handler a frame ends in. -/
def handle (host : Host) (s : NetState) (frame : List UInt8) : Rx → Option NetState
  | .dropped => some s
  | .arp data len => arpProcessPacket host s frame data len
  | .icmp ipv4 data len => icmpProcessPacket s frame ipv4 data len
  | .udp d => some { s with servers := deliver s.servers (.udp d) }

/-- `eth_process_packet` with its handlers: the frame as it is on return, and
    the state. -/
def processFrame (host : Host) (s : NetState) (frame : List UInt8) :
    Option (List UInt8 × NetState) := do
  let (frame, r) ← ethProcessPacket host frame
  return (frame, ← handle host s frame r)

/-! ## Handlers read what they are given -/

/-- The hardware address at `i`. -/
def macAt (frame : List UInt8) (i : ℕ) : Mac :=
  ⟨byteAt frame i, byteAt frame (i + 1), byteAt frame (i + 2), byteAt frame (i + 3),
    byteAt frame (i + 4), byteAt frame (i + 5)⟩

section Handlers

variable {frame : List UInt8}

theorem readMac_eq {i : ℕ} (h : i + 6 ≤ frame.length) :
    readMac frame i = some (macAt frame i) := by
  unfold readMac
  rw [getElem?_eq_byteAt (show i < frame.length by omega),
    getElem?_eq_byteAt (show i + 1 < frame.length by omega),
    getElem?_eq_byteAt (show i + 2 < frame.length by omega),
    getElem?_eq_byteAt (show i + 3 < frame.length by omega),
    getElem?_eq_byteAt (show i + 4 < frame.length by omega),
    getElem?_eq_byteAt (show i + 5 < frame.length by omega)]
  rfl

theorem arpProcessPacket_reads (host : Host) (s : NetState) {data len : ℕ}
    (h : data + len ≤ frame.length) : ∃ s', arpProcessPacket host s frame data len = some s' := by
  unfold arpProcessPacket
  by_cases hshort : len < arpPktSize
  · exact ⟨s, if_pos hshort⟩
  simp only [arpPktSize] at hshort
  rw [if_neg hshort, readBe16_eq (by omega), readMac_eq (by omega), readIp_eq (by omega),
    readIp_eq (by omega)]
  simp only [Option.bind_eq_bind, Option.bind_some, Option.pure_def]
  split_ifs
  · exact ⟨_, rfl⟩
  · exact ⟨_, rfl⟩

/-- The copy into the reply buffer ends at the end of the message or before. -/
theorem socketIcmpRx_reads (sockets : Sockets) (srcIp : Ip) {data len : ℕ}
    (h : data + len ≤ frame.length) :
    ∃ r, socketIcmpRx sockets srcIp frame data len = some r := by
  unfold socketIcmpRx
  by_cases hshort : len < icmpEchoHdrSize
  · exact ⟨_, if_pos hshort⟩
  simp only [icmpEchoHdrSize] at hshort
  rw [if_neg hshort, getElem?_eq_byteAt (by omega), getElem?_eq_byteAt (by omega)]
  simp only [Option.bind_eq_bind, Option.bind_some, Option.pure_def]
  by_cases hreply : byteAt frame data ≠ icmpEchoReply ∨ byteAt frame (data + 1) ≠ 0
  · exact ⟨_, if_pos hreply⟩
  rw [if_neg hreply, readBe16_eq (by omega), Option.bind_some]
  cases socketForReply sockets (be16At frame (data + 4)) with
  | none => exact ⟨_, rfl⟩
  | some i =>
    have htake : (if len < streamBufSize then len else streamBufSize) ≤ len := by
      split_ifs <;> omega
    simp only [bytesAt_eq (show data + (if len < streamBufSize then len else streamBufSize) ≤
      frame.length by omega), Option.bind_some]
    exact ⟨_, rfl⟩

theorem icmpProcessPacket_reads (s : NetState) {ipv4 data len : ℕ}
    (hip : ipv4 + ipv4HdrSize ≤ frame.length) (h : data + len ≤ frame.length) :
    ∃ s', icmpProcessPacket s frame ipv4 data len = some s' := by
  unfold icmpProcessPacket
  by_cases hshort : len < icmpEchoHdrSize
  · exact ⟨s, if_pos hshort⟩
  simp only [icmpEchoHdrSize, ipv4HdrSize] at hshort hip
  rw [if_neg hshort, getElem?_eq_byteAt (by omega), getElem?_eq_byteAt (by omega)]
  simp only [Option.bind_eq_bind, Option.bind_some, Option.pure_def]
  by_cases hreply : byteAt frame data = icmpEchoReply ∧ byteAt frame (data + 1) = 0
  · obtain ⟨r, hr⟩ := socketIcmpRx_reads s.sockets (ipAt frame (ipv4 + 12)) h
    rw [if_pos hreply, readIp_eq (by omega), Option.bind_some, readBe16_eq (by omega),
      Option.bind_some, readBe16_eq (by omega), Option.bind_some, hr]
    exact ⟨_, rfl⟩
  · exact ⟨s, if_neg hreply⟩

end Handlers

/-! ## What the handlers are given -/

/-- The part of the frame a handler is given lies inside the frame. -/
def Rx.Inside (n : ℕ) : Rx → Prop
  | .dropped => True
  | .arp data len => data + len ≤ n
  | .icmp ipv4 data len => ipv4 + ipv4HdrSize ≤ n ∧ data + len ≤ n
  | .udp _ => True

theorem udpProcessPacket_inside {frame frame' : List UInt8} {ipv4 udpData udpLen : ℕ} {r : Rx}
    (h : udpProcessPacket frame ipv4 udpData udpLen = some (frame', r)) (n : ℕ) : r.Inside n := by
  unfold udpProcessPacket at h
  split_ifs at h with hrunt
  · cases h
    trivial
  obtain ⟨srcPort, -, h⟩ := Option.bind_eq_some_iff.mp h
  obtain ⟨dstPort, -, h⟩ := Option.bind_eq_some_iff.mp h
  obtain ⟨dgramLen, -, h⟩ := Option.bind_eq_some_iff.mp h
  split_ifs at h with hmal
  · cases h
    trivial
  obtain ⟨srcIp, -, h⟩ := Option.bind_eq_some_iff.mp h
  obtain ⟨dstIp, -, h⟩ := Option.bind_eq_some_iff.mp h
  obtain ⟨checksum, -, h⟩ := Option.bind_eq_some_iff.mp h
  obtain ⟨segment, -, h⟩ := Option.bind_eq_some_iff.mp h
  by_cases hsum : checksum ≠ 0 ∧ udpChecksum srcIp dstIp segment ≠ 0
  · rw [if_pos hsum] at h
    cases h
    trivial
  rw [if_neg hsum] at h
  obtain ⟨payload, -, h⟩ := Option.bind_eq_some_iff.mp h
  cases h
  trivial

/-- The ICMP message ends where the packet does, and the packet was checked
    against the frame. -/
theorem ipv4ProcessPacket_inside {host : Host} {frame frame' : List UInt8} {data len : ℕ} {r : Rx}
    (h : ipv4ProcessPacket host frame data len = some (frame', r)) : r.Inside (data + len) := by
  unfold ipv4ProcessPacket at h
  split_ifs at h with hshort
  · cases h
    trivial
  obtain ⟨versionIhl, -, h⟩ := Option.bind_eq_some_iff.mp h
  obtain ⟨totalLength, -, h⟩ := Option.bind_eq_some_iff.mp h
  split_ifs at h with hmal
  · cases h
    trivial
  obtain ⟨checksum, -, h⟩ := Option.bind_eq_some_iff.mp h
  obtain ⟨header, -, h⟩ := Option.bind_eq_some_iff.mp h
  split_ifs at h with hsum
  · cases h
    trivial
  obtain ⟨fragment, -, h⟩ := Option.bind_eq_some_iff.mp h
  split_ifs at h with hfrag
  · cases h
    trivial
  obtain ⟨dstIp, -, h⟩ := Option.bind_eq_some_iff.mp h
  split_ifs at h with hdst
  · cases h
    trivial
  obtain ⟨protocol, -, h⟩ := Option.bind_eq_some_iff.mp h
  split_ifs at h with hicmp hudp
  · cases h
    simp only [ipv4HdrSize] at hshort
    exact ⟨by simp only [ipv4HdrSize]; omega, by omega⟩
  · exact udpProcessPacket_inside h _
  · cases h
    trivial

theorem ethProcessPacket_inside {host : Host} {frame frame' : List UInt8} {r : Rx}
    (h : ethProcessPacket host frame = some (frame', r)) : r.Inside frame.length := by
  unfold ethProcessPacket at h
  split_ifs at h with hshort
  · cases h
    trivial
  have hlen : ethHdrSize + (frame.length - ethHdrSize) = frame.length := by omega
  obtain ⟨ethertype, -, h⟩ := Option.bind_eq_some_iff.mp h
  split_ifs at h with harp hipv4
  · cases h
    exact hlen.le
  · rw [← hlen]
    exact ipv4ProcessPacket_inside h
  · cases h
    trivial

theorem handle_reads (host : Host) (s : NetState) {frame : List UInt8} {r : Rx}
    (h : r.Inside frame.length) : ∃ s', handle host s frame r = some s' := by
  cases r with
  | dropped => exact ⟨s, rfl⟩
  | arp data len => exact arpProcessPacket_reads host s h
  | icmp ipv4 data len => exact icmpProcessPacket_reads s h.1 h.2
  | udp d => exact ⟨_, rfl⟩

/-- **The receive path stays inside the frame.** For every frame, host and
    state, `eth_process_packet` and the handlers it calls read only bytes of the
    frame, and on return the frame holds its original bytes: the checksum fields
    that are cleared on the way have been restored on every path. -/
theorem receive_path_in_bounds (host : Host) (s : NetState) (frame : List UInt8) :
    ∃ s', processFrame host s frame = some (frame, s') := by
  obtain ⟨r, hr, -⟩ := ethProcessPacket_spec host frame
  obtain ⟨s', hs'⟩ := handle_reads host s (ethProcessPacket_inside hr)
  refine ⟨s', ?_⟩
  unfold processFrame
  rw [hr]
  simp only [Option.bind_eq_bind, Option.bind_some, hs', Option.pure_def]

end Mboot.Net
