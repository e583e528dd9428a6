import Mboot.Common.Memory
import Mboot.Common.OnesComplement

/-!
# UDP over IPv4 over Ethernet

Model of the send path `udp_send` → `ipv4_send_packet` → `e1k_send` and of the
receive path `eth_process_packet` → `ipv4_process_packet` →
`udp_process_packet` → `udp_server_enqueue` (`stage2/net/{eth,ipv4,udp}.c`).

* A frame is the list of its bytes, and a pointer into it is an index. A read
  outside the frame gives `none`. The receive functions return the frame as
  they leave it, since they clear and restore checksum fields in place.
* `arp_resolve` is a parameter of the sending host.
* The checksum sums are at most `2 ^ 15 + 6` words of 16 bits and do not wrap
  modulo `2 ^ 32`.
* ARP and ICMP packets leave the model at the call of their handler (`Rx.arp`,
  `Rx.icmp`), datagrams for in-kernel handlers at the call of the handler.
-/

namespace Mboot.Net

open Common

/-! ## Addresses and fields -/

/-- An IPv4 address, `uint8_t[4]`. -/
structure Ip where
  (a b c d : UInt8)
  deriving DecidableEq

/-- A hardware address, `uint8_t[6]`. -/
structure Mac where
  (a b c d e f : UInt8)

def Ip.bytes (ip : Ip) : List UInt8 := [ip.a, ip.b, ip.c, ip.d]

def Mac.bytes (mac : Mac) : List UInt8 := [mac.a, mac.b, mac.c, mac.d, mac.e, mac.f]

/-- `sizeof(eth_hdr)`. -/
abbrev ethHdrSize : ℕ := 14

/-- `sizeof(ipv4_hdr)`. -/
abbrev ipv4HdrSize : ℕ := 20

/-- `sizeof(udp_hdr)`. -/
abbrev udpHdrSize : ℕ := 8

/-- `IPV4_PROTOCOL_ICMP` (inc/net/ipv4.h). -/
abbrev ipv4ProtocolIcmp : UInt8 := 1

/-- `IPV4_PROTOCOL_UDP` (inc/net/ipv4.h). -/
abbrev ipv4ProtocolUdp : UInt8 := 17

/-- A 16-bit field holding `htons(x)`: the high byte comes first. -/
def be16 (x : ℕ) : List UInt8 := [UInt8.ofNat (x / 256), UInt8.ofNat x]

/-- `ntohs` of the 16-bit field at `i`. -/
def readBe16 (frame : List UInt8) (i : ℕ) : Option ℕ := do
  let hi ← frame[i]?
  let lo ← frame[i + 1]?
  return hi.toNat * 256 + lo.toNat

/-- Store `htons(x)` in the 16-bit field at `i`. -/
def writeBe16 (frame : List UInt8) (i x : ℕ) : List UInt8 :=
  (frame.set i (UInt8.ofNat (x / 256))).set (i + 1) (UInt8.ofNat x)

/-- The address at `i`. -/
def readIp (frame : List UInt8) (i : ℕ) : Option Ip := do
  return ⟨← frame[i]?, ← frame[i + 1]?, ← frame[i + 2]?, ← frame[i + 3]?⟩

/-- The `n` bytes from `i` on. -/
def bytesAt (frame : List UInt8) (i n : ℕ) : Option (List UInt8) :=
  if i + n ≤ frame.length then some ((frame.drop i).take n) else none

/-! ## Checksums -/

/-- The sum of the big-endian 16-bit words, the last byte of an odd number
    padded with zero (ipv4.c lines 81–89, udp.c lines 53–61). -/
def wordSum : List UInt8 → ℕ
  | [] => 0
  | [b] => b.toNat * 256
  | b :: c :: bytes => b.toNat * 256 + c.toNat + wordSum bytes

/-- `ipv4_checksum` (ipv4.c lines 77–96). -/
def ipv4Checksum (bytes : List UInt8) : ℕ := 0xFFFF - foldCarry (2 ^ 16) (wordSum bytes)

/-- The words of the UDP pseudo-header (udp.c lines 46–51). -/
def pseudoSum (srcIp dstIp : Ip) (segmentLen : ℕ) : ℕ :=
  wordSum srcIp.bytes + wordSum dstIp.bytes + ipv4ProtocolUdp.toNat + segmentLen

/-- `udp_checksum` (udp.c lines 41–68). -/
def udpChecksum (srcIp dstIp : Ip) (segment : List UInt8) : ℕ :=
  0xFFFF - foldCarry (2 ^ 16) (pseudoSum srcIp dstIp segment.length + wordSum segment)

/-! ## Sending -/

/-- The host's network configuration: the adapter's address, `ipv4_local_ip`
    with its valid flag, `ipv4_netmask`, `ipv4_gateway` with its valid flag,
    the result of `arp_resolve` and `udp_tx_identification`. -/
structure Host where
  mac : Mac
  localIp : Option Ip
  netmask : Ip
  gateway : Option Ip
  arpResolve : Ip → Option Mac
  identification : UInt16

/-- `ipv4_hdr` with the given checksum field (ipv4.c lines 121–132). -/
def ipv4Header (totalLength identification checksum : ℕ) (protocol : UInt8) (srcIp dstIp : Ip) :
    List UInt8 :=
  [0x45, 0] ++ be16 totalLength ++ be16 identification ++ be16 0x4000 ++ [64, protocol] ++
    be16 checksum ++ srcIp.bytes ++ dstIp.bytes

/-- `ipv4_send_packet` (ipv4.c lines 98–143): the frame handed to `e1k_send`,
    padded to 60 bytes. -/
def ipv4SendPacket (host : Host) (srcIp dstIp : Ip) (nextHopMac : Mac) (protocol : UInt8)
    (identification : ℕ) (payload : List UInt8) : List UInt8 :=
  let header := fun checksum =>
    ipv4Header (ipv4HdrSize + payload.length) identification checksum protocol srcIp dstIp
  let packet := nextHopMac.bytes ++ host.mac.bytes ++ be16 0x0800 ++
    header (ipv4Checksum (header 0)) ++ payload
  packet ++ List.replicate (60 - packet.length) 0

/-- `udp_hdr` (inc/net/udp.h). -/
def udpHeader (srcPort dstPort dgramLen checksum : ℕ) : List UInt8 :=
  be16 srcPort ++ be16 dstPort ++ be16 dgramLen ++ be16 checksum

/-- The UDP segment that `udp_send` builds (udp.c lines 241–258). A computed
    checksum of zero is sent as `0xFFFF`. -/
def udpSegment (srcIp dstIp : Ip) (srcPort dstPort : UInt16) (payload : List UInt8) : List UInt8 :=
  let segment := fun checksum =>
    udpHeader srcPort.toNat dstPort.toNat (udpHdrSize + payload.length) checksum ++ payload
  let checksum := udpChecksum srcIp dstIp (segment 0)
  segment (if checksum = 0 then 0xFFFF else checksum)

/-- `ipv4_on_local_network` (ipv4.c lines 60–73). -/
def ipv4OnLocalNetwork (host : Host) (ip : Ip) : Bool :=
  match host.localIp with
  | none => false
  | some l =>
    l.a &&& host.netmask.a == ip.a &&& host.netmask.a &&
    l.b &&& host.netmask.b == ip.b &&& host.netmask.b &&
    l.c &&& host.netmask.c == ip.c &&& host.netmask.c &&
    l.d &&& host.netmask.d == ip.d &&& host.netmask.d

/-- The next hop of `udp_send` (lines 210–239): as given, or resolved for the
    destination or the gateway. -/
def nextHop (host : Host) (dstIp : Ip) : Option Mac → Option Mac
  | some mac => some mac
  | none =>
    if ipv4OnLocalNetwork host dstIp then host.arpResolve dstIp
    else host.gateway.bind host.arpResolve

/-- `udp_send` (udp.c lines 206–263): the frame handed to `e1k_send` and the
    host with the next identification. `none` when there is no next hop, or
    when `segment_len` wraps and the copy of the payload leaves the segment. -/
def udpSend (host : Host) (srcIp dstIp : Ip) (nextHopMac : Option Mac) (srcPort dstPort : UInt16)
    (payload : List UInt8) : Option (List UInt8 × Host) := do
  let mac ← nextHop host dstIp nextHopMac
  if udpHdrSize + payload.length ≥ 2 ^ 16 then none
  else
    let segment := udpSegment srcIp dstIp srcPort dstPort payload
    return (ipv4SendPacket host srcIp dstIp mac ipv4ProtocolUdp host.identification.toNat segment,
      { host with identification := host.identification + 1 })

/-! ## Receiving -/

/-- What `udp_process_packet` hands on. -/
structure Datagram where
  srcIp : Ip
  srcPort : ℕ
  dstIp : Ip
  dstPort : ℕ
  payload : List UInt8
  deriving DecidableEq

/-- Where a received frame goes. -/
inductive Rx
  | dropped
  /-- `arp_process_packet(data, len)` -/
  | arp (data len : ℕ)
  /-- `icmp_process_packet` with the IPv4 header at `ipv4` -/
  | icmp (ipv4 data len : ℕ)
  | udp (d : Datagram)
  deriving DecidableEq

/-- `udp_process_packet` (udp.c lines 265–329) up to the delivery, with the IPv4
    header at `ipv4`. -/
def udpProcessPacket (frame : List UInt8) (ipv4 udpData udpLen : ℕ) :
    Option (List UInt8 × Rx) :=
  if udpLen < udpHdrSize then some (frame, .dropped)
  else do
    let srcPort ← readBe16 frame udpData
    let dstPort ← readBe16 frame (udpData + 2)
    let dgramLen ← readBe16 frame (udpData + 4)
    if dgramLen < udpHdrSize ∨ dgramLen > udpLen then return (frame, .dropped)
    let srcIp ← readIp frame (ipv4 + 12)
    let dstIp ← readIp frame (ipv4 + 16)
    let receivedChecksum ← readBe16 frame (udpData + 6)
    -- the expected checksum over the cleared field is only printed
    let frame := if receivedChecksum ≠ 0 then
      writeBe16 (writeBe16 frame (udpData + 6) 0) (udpData + 6) receivedChecksum else frame
    let segment ← bytesAt frame udpData dgramLen
    if receivedChecksum ≠ 0 ∧ udpChecksum srcIp dstIp segment ≠ 0 then return (frame, .dropped)
    let payload ← bytesAt frame (udpData + udpHdrSize) (dgramLen - udpHdrSize)
    return (frame, .udp ⟨srcIp, srcPort, dstIp, dstPort, payload⟩)

/-- The destination test of `ipv4_process_packet` (ipv4.c lines 181–186). -/
def ipv4NotForUs (host : Host) (dstIp : Ip) : Prop :=
  (∃ l ∈ host.localIp, l ≠ dstIp) ∧ dstIp ≠ ⟨255, 255, 255, 255⟩

instance (host : Host) (dstIp : Ip) : Decidable (ipv4NotForUs host dstIp) :=
  inferInstanceAs (Decidable (_ ∧ _))

/-- `ipv4_process_packet` (ipv4.c lines 145–207) on the packet of `len` bytes
    at `data`. -/
def ipv4ProcessPacket (host : Host) (frame : List UInt8) (data len : ℕ) :
    Option (List UInt8 × Rx) :=
  if len < ipv4HdrSize then some (frame, .dropped)
  else do
    let versionIhl ← frame[data]?
    let version := versionIhl >>> 4
    let ihl := (versionIhl &&& 0x0F).toNat * 4
    let totalLength ← readBe16 frame (data + 2)
    if version ≠ 4 ∨ ihl < ipv4HdrSize ∨ len < ihl ∨ totalLength < ihl ∨ totalLength > len then
      return (frame, .dropped)
    let headerChecksum ← readBe16 frame (data + 10)
    let frame := writeBe16 frame (data + 10) 0
    let header ← bytesAt frame data ihl
    let frame := writeBe16 frame (data + 10) headerChecksum
    if headerChecksum ≠ ipv4Checksum header then return (frame, .dropped)
    let fragmentField ← readBe16 frame (data + 6)
    if fragmentField &&& 0x3FFF ≠ 0 ∨ fragmentField &&& 0x2000 ≠ 0 then return (frame, .dropped)
    let dstIp ← readIp frame (data + 16)
    if ipv4NotForUs host dstIp then return (frame, .dropped)
    let protocol ← frame[data + 9]?
    if protocol = ipv4ProtocolIcmp then return (frame, .icmp data (data + ihl) (totalLength - ihl))
    else if protocol = ipv4ProtocolUdp then
      udpProcessPacket frame data (data + ihl) (totalLength - ihl)
    else return (frame, .dropped)

/-- `eth_process_packet` (eth.c lines 10–29). -/
def ethProcessPacket (host : Host) (frame : List UInt8) : Option (List UInt8 × Rx) :=
  if frame.length < ethHdrSize then some (frame, .dropped)
  else do
    let ethertype ← readBe16 frame 12
    if ethertype = 0x0806 then return (frame, .arp ethHdrSize (frame.length - ethHdrSize))
    else if ethertype = 0x0800 then
      ipv4ProcessPacket host frame ethHdrSize (frame.length - ethHdrSize)
    else return (frame, .dropped)

/-! ## Userspace servers -/

/-- `UDP_MAX_SERVERS` (udp.c). -/
abbrev udpMaxServers : ℕ := 4

instance : NeZero udpMaxServers := ⟨by decide⟩

/-- `UDP_MAX_QUEUE` (udp.c). -/
abbrev udpMaxQueue : ℕ := 16

/-- `UDP_MAX_DGRAM` (udp.c). -/
abbrev udpMaxDgram : ℕ := 1472

/-- `sizeof(udp_dgram_t)`: `len`, `src_ip`, `src_port` and `payload`. -/
abbrev dgramSize : ℕ := 8 + udpMaxDgram

/-- Offset of `head` in `udp_user_server_t`, behind `port` and `queue`. -/
abbrev headOff : ℕ := 2 + udpMaxQueue * dgramSize

/-- Offset of `count` in `udp_user_server_t`. -/
abbrev countOff : ℕ := headOff + 1

/-- `sizeof(udp_user_server_t)`. -/
abbrev serverSize : ℕ := countOff + 1

/-- The memory from the address of a `udp_user_server_t` on: the object is at
    the offsets below `serverSize`, whatever the heap holds behind it follows. -/
abbrev ServerMem := ℕ → UInt8

/-- `server->port`. -/
def ServerMem.port (m : ServerMem) : ℕ := load 2 m 0

/-- `server->head`. -/
def ServerMem.head (m : ServerMem) : ℕ := (m headOff).toNat

/-- `server->count`. -/
def ServerMem.count (m : ServerMem) : ℕ := (m countOff).toNat

/-- Offset of `server->queue[slot]`. -/
def slotOff (slot : ℕ) : ℕ := 2 + slot * dgramSize

/-- The slot `udp_server_enqueue` fills. -/
def ServerMem.nextSlot (m : ServerMem) : ℕ := (m.head + m.count) % udpMaxQueue

/-- `udp_server_enqueue` (udp.c lines 117–138) without its final wake. The
    increment of `count` reads the field after the payload has been copied. -/
def udpServerEnqueue (m : ServerMem) (d : Datagram) : ServerMem :=
  if m.count ≥ udpMaxQueue then m
  else
    let dgram := slotOff m.nextSlot
    let m := storeWord 2 m dgram d.payload.length
    let m := store m (dgram + 2) d.srcIp.bytes
    let m := storeWord 2 m (dgram + 6) d.srcPort
    let m := store m (dgram + 8) d.payload
    store m countOff [m countOff + 1]

/-- `udp_servers`. -/
abbrev Servers := Fin udpMaxServers → Option ServerMem

/-- `udp_find_server` (udp.c lines 85–93). -/
def udpFindServer (servers : Servers) (port : ℕ) : Option (Fin udpMaxServers) :=
  (List.finRange udpMaxServers).find? fun i => (servers i).any fun m => m.port == port

/-- `udp_server_bind` (udp.c lines 95–113). A new server is zeroed before its
    port is set. -/
def udpServerBind (servers : Servers) (port : ℕ) : ℤ × Servers :=
  match udpFindServer servers port with
  | some _ => (0, servers)
  | none =>
    match (List.finRange udpMaxServers).find? fun i => (servers i).isNone with
    | none => (-1, servers)
    | some i => (0, Function.update servers i (some (storeWord 2 (fun _ => 0) 0 port)))

/-- `udp_server_recv` (udp.c lines 141–163): the sender, its port and at most
    `maxLen` bytes of the oldest datagram, which is removed. `none` stands for
    the result `-1`. -/
def udpServerRecv (servers : Servers) (port maxLen : ℕ) :
    Option (Ip × ℕ × List UInt8 × Servers) := do
  let i ← udpFindServer servers port
  let m ← servers i
  if m.count = 0 then none
  let dgram := slotOff m.head
  let len := load 2 m dgram
  let take := if len > maxLen then maxLen else len
  let srcIp : Ip := ⟨m (dgram + 2), m (dgram + 3), m (dgram + 4), m (dgram + 5)⟩
  let m' := store m headOff [UInt8.ofNat ((m.head + 1) % udpMaxQueue)]
  let m' := store m' countOff [m' countOff - 1]
  return (srcIp, load 2 m (dgram + 6), slice m (dgram + 8) take,
    Function.update servers i (some m'))

/-- The delivery at the end of `udp_process_packet` (lines 318–322). -/
def deliver (servers : Servers) : Rx → Servers
  | .udp d =>
    match udpFindServer servers d.dstPort with
    | some i => Function.update servers i ((servers i).map fun m => udpServerEnqueue m d)
    | none => servers
  | _ => servers

/-- The servers after `eth_process_packet` has handled a frame. -/
def receiveFrame (host : Host) (servers : Servers) (frame : List UInt8) : Option Servers :=
  (ethProcessPacket host frame).map fun r => deliver servers r.2

end Mboot.Net
