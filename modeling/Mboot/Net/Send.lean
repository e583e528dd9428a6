import Mboot.E1k.Model
import Mboot.Net.RoundTrip
import Mboot.Net.Socket

/-!
# Datagrams on the wire

`udp_send_local` down to an adapter that transmits every frame `e1k_send` accepts, and
the socket calls that end in it.

* `wireSend_cases`: what a call can do, by the length of the payload: 42 bytes of
  headers leave room for 2006 bytes in a frame, and from 65528 bytes on the length of
  the segment wraps.
* `streamWrite_reports_iff`: when a write to a peer sends what it reports.
* `buffered_output_flushed_iff`: what was written before the first datagram arrives is
  sent to its sender if and only if it is at most 2006 bytes. The buffer holds 2048, and
  a flush of more than 2006 fails and is tried again with the same length.
-/

namespace Mboot.Net

open Common

/-! ## The adapter -/

/-- The sending host, with the frames its adapter has transmitted. -/
structure Wire where
  host : Host
  transmitted : List (List UInt8)

/-- `e1k_send` (e1k.c lines 333–382) when the adapter transmits every frame it is given. -/
def e1kSend (w : Wire) (frame : List UInt8) : ℤ × Wire :=
  if frame.length > E1k.txBufSize then (-1, w)
  else (0, { w with transmitted := w.transmitted ++ [frame] })

/-- `udp_send_local` (udp.c lines 165–177). `none` when `segment_len` wraps and the copy
    of the payload leaves the segment. -/
def udpSendLocal (w : Wire) (srcPort : ℕ) (dstIp : Ip) (dstPort : ℕ) (payload : List UInt8) :
    Option (ℤ × Wire) :=
  match w.host.localIp with
  | none => some (-1, w)
  | some srcIp =>
    if (nextHop w.host dstIp none).isNone then some (-1, w)
    else do
      let (frame, host) ← udpSend w.host srcIp dstIp none (UInt16.ofNat srcPort)
        (UInt16.ofNat dstPort) payload
      return e1kSend { w with host := host } frame

/-- `udp_send_local` as the socket layer calls it. The state is `none` once the behaviour
    has become undefined. -/
def wireSend : Send (Option Wire) := fun net srcPort dstIp dstPort payload =>
  match net.bind fun w => udpSendLocal w srcPort dstIp dstPort payload with
  | some (ret, w) => (ret, some w)
  | none => (0, none)

/-- `ICMP_ECHO_REQUEST` (inc/net/icmp.h). -/
abbrev icmpEchoRequest : UInt8 := 8

/-- The message that `icmp_send_echo` builds (icmp.c lines 36–51), with the payload
    `mboot-icmp`. -/
def icmpEcho (identifier sequence : ℕ) : List UInt8 :=
  let message := fun checksum => [icmpEchoRequest, 0] ++ be16 checksum ++ be16 identifier ++
    be16 sequence ++ [0x6D, 0x62, 0x6F, 0x6F, 0x74, 0x2D, 0x69, 0x63, 0x6D, 0x70]
  message (ipv4Checksum (message 0))

/-- `icmp_send_echo` (icmp.c lines 34–82), after `ipv4_get_address`. -/
def icmpSendEcho (w : Wire) (dstIp : Ip) (identifier sequence : ℕ) : ℤ × Wire :=
  match w.host.localIp, nextHop w.host dstIp none with
  | some srcIp, some mac =>
    e1kSend w (ipv4SendPacket w.host srcIp dstIp mac ipv4ProtocolIcmp sequence
      (icmpEcho identifier sequence))
  | _, _ => (-1, w)

/-! ## Socket calls -/

/-- `socket_sendto` (socket.c lines 221–261) of the bytes `src` at `buf`. `dest` is the
    address and the port in `dest` when `sockaddr_in_valid` accepts it. -/
def socketSendto (sockets : Sockets) (net : Option Wire) (handle : ℤ) (buf : ℕ)
    (src : List UInt8) (dest : Option (Ip × ℕ)) : ℤ × Sockets × Option Wire :=
  match socketFromHandle sockets handle, dest with
  | some i, some (dstIp, dstPort) =>
    if buf = 0 ∨ src.length > 65535 then (-1, sockets, net)
    else
      let sock := sockets i
      if sock.isRaw then
        match net with
        | none => (0, sockets, none)
        | some w =>
          let (ret, w) := icmpSendEcho w dstIp sock.icmpIdentifier sock.icmpSequence
          if ret < 0 then (-1, sockets, some w)
          else
            let stream := { sock.stream with peerIp := dstIp, hasPeer := true }
            (src.length, Function.update sockets i
              { sock with icmpSequence := (sock.icmpSequence + 1) % 2 ^ 16, stream }, some w)
      else
        let srcPort := if sock.bound then sock.localPort else 49152
        let (ret, net) := wireSend net srcPort dstIp dstPort (src.take (src.length % 2 ^ 16))
        if ret < 0 then (-1, sockets, net)
        else
          let stream :=
            { sock.stream with peerIp := dstIp, peerPort := dstPort, hasPeer := true }
          (src.length, Function.update sockets i { sock with stream }, net)
  | _, _ => (-1, sockets, net)

/-- How one round of `socket_recvfrom` ends: with a result, the bytes stored at the
    destination and the address for `sockaddr_from_peer`, or waiting for input. -/
inductive RecvOutcome
  | done (ret : ℤ) (bytes : List UInt8) (peer : Option (Ip × ℕ))
  | waiting

/-- `socket_recvfrom` (socket.c lines 263–312). -/
def socketRecvfrom (sockets : Sockets) (servers : Servers) (net : Option Wire) (handle : ℤ)
    (buf len : ℕ) : RecvOutcome × Sockets × Servers × Option Wire :=
  match socketFromHandle sockets handle with
  | none => (.done (-1) [] none, sockets, servers, net)
  | some i =>
    let sock := sockets i
    let st := sock.stream
    if buf = 0 ∨ len > 65535 then (.done (-1) [] none, sockets, servers, net)
    else if sock.isRaw then
      if st.inPos < st.inbuf.length then
        let bytes := (st.inbuf.drop st.inPos).take len
        let stream := { st with inPos := st.inPos + bytes.length }
        (.done bytes.length bytes (some (st.peerIp, 0)),
          Function.update sockets i { sock with stream }, servers, net)
      else
        let stream := { st with inbuf := [], inPos := 0 }
        (.waiting, Function.update sockets i { sock with stream }, servers, net)
    else if !sock.bound then (.done (-1) [] none, sockets, servers, net)
    else
      match udpServerRecv servers sock.localPort len with
      | none => (.waiting, sockets, servers, net)
      | some (ip, port, payload, servers) =>
        let (stream, net) := flushOutput wireSend sock.localPort
          { st with peerIp := ip, peerPort := port, hasPeer := true } net
        (.done payload.length payload (some (ip, port)),
          Function.update sockets i { sock with stream }, servers, net)

/-! ## What a send does -/

/-- There is a local address and a next hop towards `dstIp`. -/
def Routable (host : Host) (dstIp : Ip) : Prop :=
  host.localIp.isSome ∧ (nextHop host dstIp none).isSome

/-- The frame holds a UDP datagram of `payload` to port `dstPort` of `dstIp`. -/
structure CarriesUdp (frame : List UInt8) (dstIp : Ip) (dstPort : ℕ) (payload : List UInt8) :
    Prop where
  protocol : byteAt frame 23 = ipv4ProtocolUdp
  dgram : udpLenField frame = udpHdrSize + payload.length
  dstIp : (carried frame).dstIp = dstIp
  dstPort : (carried frame).dstPort = dstPort
  payload : (carried frame).payload = payload

theorem length_ipv4SendPacket (host : Host) (srcIp dstIp : Ip) (mac : Mac) (protocol : UInt8)
    (identification : ℕ) (payload : List UInt8) :
    (ipv4SendPacket host srcIp dstIp mac protocol identification payload).length =
      max 60 (34 + payload.length) := by
  unfold ipv4SendPacket
  dsimp only
  have hheaders : ∀ checksum, (mac.bytes ++ host.mac.bytes ++ be16 0x0800 ++
      ipv4Header (ipv4HdrSize + payload.length) identification checksum protocol srcIp dstIp ++
        payload).length = 34 + payload.length := by
    intro checksum
    rw [List.length_append]
    rfl
  rw [List.length_append, hheaders, List.length_replicate]
  omega

theorem carriesUdp_sentFrame {host : Host} {srcIp dstIp : Ip} {mac : Mac} {ident : ℕ}
    {srcPort dstPort : UInt16} {payload padding : List UInt8}
    (hlen : udpHdrSize + payload.length < 2 ^ 16) :
    CarriesUdp (sentFrame host srcIp dstIp mac ident srcPort dstPort payload padding) dstIp
      dstPort.toNat payload where
  protocol := rfl
  dgram := udpLenField_sent hlen
  dstIp := by rw [carried_sent_frame hlen]
  dstPort := by rw [carried_sent_frame hlen]
  payload := by rw [carried_sent_frame hlen]

/-- The largest payload of a frame that `e1k_send` accepts. -/
abbrev maxPayload : ℕ := 2006

section Send

variable {w : Wire} {dstIp : Ip}

theorem udpSendLocal_unroutable (h : ¬ Routable w.host dstIp) (srcPort dstPort : ℕ)
    (payload : List UInt8) : udpSendLocal w srcPort dstIp dstPort payload = some (-1, w) := by
  unfold udpSendLocal
  unfold Routable at h
  cases hlocal : w.host.localIp with
  | none => rfl
  | some srcIp =>
    have hhop : (nextHop w.host dstIp none).isNone = true := by
      rw [hlocal] at h
      simpa using h
    simp only [if_pos hhop]

/-- The length of the segment wraps. -/
theorem udpSendLocal_wraps (h : Routable w.host dstIp) (srcPort dstPort : ℕ)
    {payload : List UInt8} (hlen : udpHdrSize + payload.length ≥ 2 ^ 16) :
    udpSendLocal w srcPort dstIp dstPort payload = none := by
  obtain ⟨hlocal, hhop⟩ := h
  obtain ⟨srcIp, hlocal⟩ := Option.isSome_iff_exists.mp hlocal
  obtain ⟨mac, hhop⟩ := Option.isSome_iff_exists.mp hhop
  simp only [udpSendLocal, udpSend, hlocal, hhop, Option.bind_eq_bind, Option.bind_some,
    if_pos hlen, Option.bind_none, Option.isNone_some, Bool.false_eq_true, if_false]

/-- A send with a route and without a wrap hands `e1k_send` a frame with the datagram. -/
theorem udpSendLocal_frame (h : Routable w.host dstIp) (srcPort dstPort : ℕ)
    {payload : List UInt8} (hlen : udpHdrSize + payload.length < 2 ^ 16) :
    ∃ frame host', udpSendLocal w srcPort dstIp dstPort payload =
        some (e1kSend { w with host := host' } frame) ∧
      frame.length = max 60 (42 + payload.length) ∧
      CarriesUdp frame dstIp (dstPort % 2 ^ 16) payload := by
  obtain ⟨hlocal, hhop⟩ := h
  obtain ⟨srcIp, hlocal⟩ := Option.isSome_iff_exists.mp hlocal
  obtain ⟨mac, hhop⟩ := Option.isSome_iff_exists.mp hhop
  obtain ⟨padding, hframe⟩ := ipv4SendPacket_eq w.host srcIp dstIp mac
    w.host.identification.toNat (udpSegment srcIp dstIp (UInt16.ofNat srcPort)
      (UInt16.ofNat dstPort) payload)
  refine ⟨ipv4SendPacket w.host srcIp dstIp mac ipv4ProtocolUdp w.host.identification.toNat
    (udpSegment srcIp dstIp (UInt16.ofNat srcPort) (UInt16.ofNat dstPort) payload),
    { w.host with identification := w.host.identification + 1 }, ?_, ?_, ?_⟩
  · simp only [udpSendLocal, udpSend, hlocal, hhop, Option.bind_eq_bind, Option.bind_some,
      if_neg (show ¬ udpHdrSize + payload.length ≥ 2 ^ 16 by omega), Option.isNone_some,
      Bool.false_eq_true, if_false, Option.pure_def]
  · rw [length_ipv4SendPacket, length_udpSegment]
    simp only [udpHdrSize]
    omega
  · rw [hframe, ← UInt16.toNat_ofNat' (n := dstPort)]
    exact carriesUdp_sentFrame hlen

/-- The ways a call of `udp_send_local` can end: without a route, in undefined behaviour,
    refused by `e1k_send`, or with the datagram transmitted. -/
theorem wireSend_cases (w : Wire) (srcPort : ℕ) (dstIp : Ip) (dstPort : ℕ)
    (payload : List UInt8) :
    (¬ Routable w.host dstIp ∧ wireSend (some w) srcPort dstIp dstPort payload = (-1, some w)) ∨
    (Routable w.host dstIp ∧ 2 ^ 16 ≤ udpHdrSize + payload.length ∧
      wireSend (some w) srcPort dstIp dstPort payload = (0, none)) ∨
    (Routable w.host dstIp ∧ maxPayload < payload.length ∧
      udpHdrSize + payload.length < 2 ^ 16 ∧
      ∃ host', wireSend (some w) srcPort dstIp dstPort payload =
        (-1, some { w with host := host' })) ∨
    (Routable w.host dstIp ∧ payload.length ≤ maxPayload ∧
      ∃ frame host', wireSend (some w) srcPort dstIp dstPort payload =
          (0, some ⟨host', w.transmitted ++ [frame]⟩) ∧
        CarriesUdp frame dstIp (dstPort % 2 ^ 16) payload) := by
  unfold wireSend
  rw [Option.bind_some]
  by_cases hroute : Routable w.host dstIp
  swap
  · left
    exact ⟨hroute, by rw [udpSendLocal_unroutable hroute]⟩
  right
  by_cases hwrap : udpHdrSize + payload.length ≥ 2 ^ 16
  · left
    exact ⟨hroute, hwrap, by rw [udpSendLocal_wraps hroute srcPort dstPort hwrap]⟩
  right
  obtain ⟨frame, host', hsend, hframe, hcarries⟩ :=
    udpSendLocal_frame hroute srcPort dstPort (Nat.lt_of_not_ge hwrap)
  rw [hsend, e1kSend]
  simp only [maxPayload]
  by_cases hmax : 2006 < payload.length
  · left
    refine ⟨hroute, hmax, Nat.lt_of_not_ge hwrap, host', ?_⟩
    rw [if_pos (by rw [hframe]; simp only [E1k.txBufSize]; omega)]
  · right
    refine ⟨hroute, Nat.le_of_not_lt hmax, frame, host', ?_, hcarries⟩
    rw [if_neg (by rw [hframe]; simp only [E1k.txBufSize]; omega)]

theorem wireSend_ret (w : Wire) (srcPort : ℕ) (dstIp : Ip) (dstPort : ℕ)
    (payload : List UInt8) :
    (wireSend (some w) srcPort dstIp dstPort payload).1 = 0 ∨
      (wireSend (some w) srcPort dstIp dstPort payload).1 = -1 := by
  obtain ⟨-, hsend⟩ | ⟨-, -, hsend⟩ | ⟨-, -, -, host', hsend⟩ | ⟨-, -, frame, host', hsend, -⟩ :=
    wireSend_cases w srcPort dstIp dstPort payload
  · exact .inr (by rw [hsend])
  · exact .inl (by rw [hsend])
  · exact .inr (by rw [hsend])
  · exact .inl (by rw [hsend])

end Send

/-! ## Writes to a peer -/

/-- The outcome of a call that sends the bytes `src`: the behaviour is defined, and a
    result `n ≥ 0` means that one datagram with the first `n` bytes was transmitted. -/
def Reports (w : Wire) (ret : ℤ) (net : Option Wire) (src : List UInt8) : Prop :=
  ∃ w', net = some w' ∧
    (0 ≤ ret → ∃ frame, w'.transmitted = w.transmitted ++ [frame] ∧
      byteAt frame 23 = ipv4ProtocolUdp ∧ (udpLenField frame : ℤ) = udpHdrSize + ret ∧
      (carried frame).payload = src.take ret.toNat ∧ ret.toNat ≤ src.length)

theorem Reports.of_neg (w : Wire) {w' : Wire} {ret : ℤ} (h : ret < 0) (src : List UInt8) :
    Reports w ret (some w') src :=
  ⟨w', rfl, fun h0 => absurd h (by omega)⟩

theorem not_reports_none (w : Wire) (ret : ℤ) (src : List UInt8) :
    ¬ Reports w ret none src := by
  rintro ⟨w', h, -⟩
  cases h

/-- One transmitted datagram is what the call reports exactly when the result is its
    length. -/
theorem reports_carries_iff {w : Wire} {host' : Host} {frame : List UInt8} {dstIp : Ip}
    {dstPort : ℕ} {src : List UInt8} {m : ℕ} {ret : ℤ} (h0 : 0 ≤ ret) (hm : m ≤ src.length)
    (h : CarriesUdp frame dstIp dstPort (src.take m)) :
    Reports w ret (some ⟨host', w.transmitted ++ [frame]⟩) src ↔ ret = m := by
  have hlen : (src.take m).length = m := by
    rw [List.length_take]
    omega
  constructor
  · rintro ⟨w', hw, hsent⟩
    obtain ⟨frame', hframe, -, hfield, -⟩ := hsent h0
    rw [← Option.some.inj hw, List.append_cancel_left_eq, List.cons.injEq] at hframe
    rw [← hframe.1, h.dgram, hlen] at hfield
    push_cast at hfield
    omega
  · rintro rfl
    refine ⟨_, rfl, fun _ => ⟨frame, rfl, h.protocol, ?_, ?_, ?_⟩⟩
    · rw [h.dgram, hlen]
      push_cast
      rfl
    · rw [h.payload, Int.toNat_natCast]
    · rw [Int.toNat_natCast]
      exact hm

/-- A call that sends the first `m` bytes of `src` and returns `n` if `udp_send_local`
    returns 0. -/
theorem wireSend_reports_iff (w : Wire) (srcPort : ℕ) (dstIp : Ip) (dstPort : ℕ)
    {src : List UInt8} {m : ℕ} (hm : m ≤ src.length) (n : ℤ) :
    Reports w (if (wireSend (some w) srcPort dstIp dstPort (src.take m)).1 = 0 then n else -1)
        (wireSend (some w) srcPort dstIp dstPort (src.take m)).2 src ↔
      (Routable w.host dstIp → udpHdrSize + m < 2 ^ 16 ∧ (maxPayload < m ∨ n < 0 ∨ n = m)) := by
  have htake : (src.take m).length = m := by
    rw [List.length_take]
    omega
  obtain ⟨hroute, hsend⟩ | ⟨hroute, hwrap, hsend⟩ | ⟨hroute, hmax, hlen, host', hsend⟩ |
      ⟨hroute, hmax, frame, host', hsend, hcarries⟩ :=
    wireSend_cases w srcPort dstIp dstPort (src.take m)
  · simp only [hsend, hroute, false_imp_iff, iff_true]
    exact Reports.of_neg w (by norm_num) src
  · rw [htake] at hwrap
    simp only [hsend, hroute, true_imp_iff, not_reports_none, false_iff]
    omega
  · rw [htake] at hmax hlen
    simp only [hsend, hroute, true_imp_iff, hmax, true_or, hlen, and_self, iff_true]
    exact Reports.of_neg w (by norm_num) src
  · rw [htake] at hmax
    simp only [hsend, hroute, true_imp_iff, if_true]
    have hsmall : udpHdrSize + m < 2 ^ 16 := by
      simp only [udpHdrSize, maxPayload] at hmax ⊢
      omega
    by_cases hneg : n < 0
    · constructor
      · intro _
        exact ⟨hsmall, .inr (.inl hneg)⟩
      · intro _
        exact Reports.of_neg w hneg src
    · rw [reports_carries_iff (by omega) hm hcarries]
      constructor
      · intro h
        exact ⟨hsmall, .inr (.inr h)⟩
      · rintro ⟨-, h | h | h⟩
        · omega
        · exact absurd h hneg
        · exact h

theorem int32_natCast_lt {n : ℕ} (h : n < 2 ^ 31) : int32 n = n := by
  unfold int32
  exact Int.bmod_eq_of_le (by omega) (by omega)

theorem int32_natCast_neg {n : ℕ} (h : 2 ^ 31 ≤ n) (hlt : n < 2 ^ 32) : int32 n < 0 := by
  unfold int32
  rw [Int.bmod_def]
  omega

/-- The sizes for which a write to a peer sends what it reports: no wrap in `udp_send`,
    and none in the cast to `uint16_t`, unless the call fails all the same. -/
def SendableSize (n : ℕ) : Prop :=
  udpHdrSize + n % 2 ^ 16 < 2 ^ 16 ∧ (maxPayload < n % 2 ^ 16 ∨ 2 ^ 31 ≤ n ∨ n < 2 ^ 16)

theorem streamWrite_reports_iff (w : Wire) (port : ℕ) {st : Stream} (hpeer : st.hasPeer = true)
    {src : List UInt8} (hlen : src.length < 2 ^ 32) :
    Reports w (streamWrite wireSend port st (some w) src).1
        (streamWrite wireSend port st (some w) src).2.2 src ↔
      (Routable w.host st.peerIp → SendableSize src.length) := by
  have hmod : src.length % 2 ^ 16 ≤ src.length := Nat.mod_le _ _
  have hneg : int32 src.length < 0 ↔ 2 ^ 31 ≤ src.length := by
    constructor
    · intro h
      by_contra hsmall
      rw [int32_natCast_lt (by omega)] at h
      omega
    · intro h
      exact int32_natCast_neg h hlen
  have heq : ¬ 2 ^ 31 ≤ src.length →
      (int32 src.length = (src.length % 2 ^ 16 : ℕ) ↔ src.length < 2 ^ 16) := by
    intro h
    rw [int32_natCast_lt (by omega)]
    omega
  unfold streamWrite
  simp only [hpeer, if_true]
  rw [wireSend_reports_iff w port st.peerIp st.peerPort hmod, hneg]
  unfold SendableSize
  by_cases hbig : 2 ^ 31 ≤ src.length
  · simp only [hbig, true_or, or_true]
  · simp only [hbig, false_or, heq hbig]

section Sockets

variable {w : Wire} {sockets : Sockets} {handle : ℤ} {i : Fin socketMax} {buf : ℕ}
  {src : List UInt8}

theorem socketWrite_reports_iff (hsock : socketFromHandle sockets handle = some i)
    (hbound : (sockets i).bound = true) (hpeer : (sockets i).stream.hasPeer = true)
    (hbuf : buf ≠ 0) (hlen : src.length ≤ 65535) :
    Reports w (socketWrite wireSend sockets (some w) handle buf src).1
        (socketWrite wireSend sockets (some w) handle buf src).2.2 src ↔
      (Routable w.host (sockets i).stream.peerIp → udpHdrSize + src.length < 2 ^ 16) := by
  have hargs : ¬ (!(sockets i).bound || buf == 0 || decide (src.length > 65535)) = true := by
    simp [hbound, hbuf, hlen]
  unfold socketWrite
  simp only [hsock, if_neg hargs]
  rw [streamWrite_reports_iff w _ hpeer (by omega)]
  unfold SendableSize
  rw [Nat.mod_eq_of_lt (by omega)]
  constructor
  · intro h hroute
    exact (h hroute).1
  · intro h hroute
    exact ⟨h hroute, .inr (.inr (by omega))⟩

/-- On a raw socket `socket_sendto` sends an echo request in place of the datagram. -/
theorem icmpSendEcho_cases (w : Wire) (dstIp : Ip) (identifier sequence : ℕ) :
    (¬ Routable w.host dstIp ∧ icmpSendEcho w dstIp identifier sequence = (-1, w)) ∨
    (Routable w.host dstIp ∧ ∃ frame, byteAt frame 23 = ipv4ProtocolIcmp ∧
      icmpSendEcho w dstIp identifier sequence =
        (0, { w with transmitted := w.transmitted ++ [frame] })) := by
  unfold icmpSendEcho Routable
  cases hlocal : w.host.localIp with
  | none =>
    left
    simp
  | some srcIp =>
    cases hhop : nextHop w.host dstIp none with
    | none =>
      left
      simp
    | some mac =>
      right
      refine ⟨by simp, ipv4SendPacket w.host srcIp dstIp mac ipv4ProtocolIcmp sequence
        (icmpEcho identifier sequence), rfl, ?_⟩
      have hecho : (icmpEcho identifier sequence).length = 18 := rfl
      apply if_neg
      rw [length_ipv4SendPacket, hecho]
      decide

theorem socketSendto_reports_iff (hsock : socketFromHandle sockets handle = some i)
    (hbuf : buf ≠ 0) (hlen : src.length ≤ 65535) (dstIp : Ip) (dstPort : ℕ) :
    Reports w (socketSendto sockets (some w) handle buf src (some (dstIp, dstPort))).1
        (socketSendto sockets (some w) handle buf src (some (dstIp, dstPort))).2.2 src ↔
      (Routable w.host dstIp → (sockets i).isRaw = false ∧ udpHdrSize + src.length < 2 ^ 16) := by
  have hargs : ¬ (buf = 0 ∨ src.length > 65535) := by omega
  unfold socketSendto
  simp only [hsock, if_neg hargs]
  by_cases hraw : (sockets i).isRaw = true
  · simp only [hraw, if_true]
    obtain ⟨hroute, hsend⟩ | ⟨hroute, frame, hproto, hsend⟩ :=
      icmpSendEcho_cases w dstIp (sockets i).icmpIdentifier (sockets i).icmpSequence
    · simp only [hsend, hroute, false_imp_iff, iff_true]
      exact Reports.of_neg w (by norm_num) src
    · simp only [hsend, hroute, true_imp_iff, Bool.true_eq_false, false_and, iff_false]
      rintro ⟨w', hw, hsent⟩
      obtain ⟨frame', hframe, hudp, -⟩ := hsent (by simp)
      rw [← Option.some.inj hw, List.append_cancel_left_eq, List.cons.injEq] at hframe
      rw [← hframe.1, hproto] at hudp
      exact absurd hudp (by decide)
  · have hret := wireSend_ret w (if (sockets i).bound then (sockets i).localPort else 49152)
      dstIp dstPort (src.take src.length)
    have hiff := wireSend_reports_iff w
      (if (sockets i).bound then (sockets i).localPort else 49152) dstIp dstPort
      (le_refl src.length) src.length
    simp only [hraw, Bool.false_eq_true, if_false, Nat.mod_eq_of_lt (show src.length < 2 ^ 16 by
      omega), true_and]
    generalize wireSend (some w) _ dstIp dstPort (src.take src.length) = r at hret hiff ⊢
    simp only [or_true, and_true] at hiff
    rw [← hiff]
    rcases hret with h0 | h1
    · simp only [h0, lt_irrefl, if_false, if_true]
    · simp only [h1, show (-1 : ℤ) < 0 by norm_num, show ¬ (-1 : ℤ) = 0 by norm_num, if_true,
        if_false]

end Sockets

/-! ## Output buffered before the first datagram -/

/-- The bytes in the calls of `socket_write` that pass its checks, each call a buffer
    address and what is stored there. -/
def written (writes : List (ℕ × List UInt8)) : List UInt8 :=
  (writes.filter fun c => c.1 ≠ 0 ∧ c.2.length ≤ 65535).flatMap Prod.snd

/-- A sequence of calls of `socket_write` on one handle. -/
def socketWrites (sockets : Sockets) (net : Option Wire) (handle : ℤ)
    (writes : List (ℕ × List UInt8)) : Sockets × Option Wire :=
  writes.foldl (fun s c => (socketWrite wireSend s.1 s.2 handle c.1 c.2).2) (sockets, net)

/-- Replace the output buffer of socket `i`. -/
def withOutput (sockets : Sockets) (i : Fin socketMax) (bytes : List UInt8) : Sockets :=
  Function.update sockets i
    { sockets i with stream := { (sockets i).stream with outbuf := bytes } }

theorem withOutput_self (sockets : Sockets) (i : Fin socketMax) :
    withOutput sockets i (sockets i).stream.outbuf = sockets := Function.update_eq_self i sockets

theorem withOutput_get (sockets : Sockets) (i : Fin socketMax) (bytes : List UInt8) :
    withOutput sockets i bytes i =
      { sockets i with stream := { (sockets i).stream with outbuf := bytes } } :=
  Function.update_self ..

theorem withOutput_withOutput (sockets : Sockets) (i : Fin socketMax) (a b : List UInt8) :
    withOutput (withOutput sockets i a) i b = withOutput sockets i b := by
  unfold withOutput
  rw [Function.update_idem, Function.update_self]

theorem take_append_take (l m : List UInt8) (n : ℕ) :
    (l.take n ++ m).take n = (l ++ m).take n := by
  by_cases h : l.length ≤ n
  · rw [List.take_of_length_le h]
  · rw [List.take_append_of_le_length (by rw [List.length_take]; omega), List.take_take,
      Nat.min_self, List.take_append_of_le_length (by omega)]

section Flush

variable {w : Wire} {sockets : Sockets} {handle : ℤ} {i : Fin socketMax}

theorem socketFromHandle_withOutput (h : socketFromHandle sockets handle = some i)
    (bytes : List UInt8) : socketFromHandle (withOutput sockets i bytes) handle = some i := by
  rw [socketFromHandle_eq_some] at h ⊢
  rw [withOutput_get]
  exact h

/-- One call on a bound socket without a peer. -/
theorem socketWrite_buffers (hsock : socketFromHandle sockets handle = some i)
    (hbound : (sockets i).bound = true) (hpeer : (sockets i).stream.hasPeer = false)
    (hcap : (sockets i).stream.outbuf.length ≤ streamOutSize) (net : Option Wire)
    (c : ℕ × List UInt8) :
    (socketWrite wireSend sockets net handle c.1 c.2).2 =
      (withOutput sockets i
        (((sockets i).stream.outbuf ++ written [c]).take streamOutSize), net) := by
  unfold socketWrite written
  by_cases hok : c.1 ≠ 0 ∧ c.2.length ≤ 65535
  · have hargs : ¬ (!(sockets i).bound || c.1 == 0 || decide (c.2.length > 65535)) = true := by
      simp [hbound, hok.1, hok.2]
    simp only [hsock, if_neg hargs, streamWrite, hpeer, Bool.false_eq_true, if_false, withOutput,
      List.filter_cons, decide_eq_true hok, if_true, List.filter_nil, List.flatMap_singleton,
      List.take_append, List.take_of_length_le hcap]
  · have hargs : (!(sockets i).bound || c.1 == 0 || decide (c.2.length > 65535)) = true := by
      simp only [hbound, Bool.not_true, Bool.false_or, Bool.or_eq_true, beq_iff_eq,
        decide_eq_true_eq]
      omega
    simp only [hsock, if_pos hargs, List.filter_cons, decide_eq_false hok, Bool.false_eq_true,
      if_false, List.filter_nil, List.flatMap_nil, List.append_nil, List.take_of_length_le hcap,
      withOutput_self]

/-- The calls fill the buffer with the first bytes written, up to its size. -/
theorem socketWrites_buffer (hsock : socketFromHandle sockets handle = some i)
    (hbound : (sockets i).bound = true) (hpeer : (sockets i).stream.hasPeer = false)
    (hcap : (sockets i).stream.outbuf.length ≤ streamOutSize) (net : Option Wire)
    (writes : List (ℕ × List UInt8)) :
    socketWrites sockets net handle writes =
      (withOutput sockets i
        (((sockets i).stream.outbuf ++ written writes).take streamOutSize), net) := by
  induction writes generalizing sockets with
  | nil =>
    have hnil : written [] = [] := rfl
    rw [hnil, List.append_nil, List.take_of_length_le hcap, withOutput_self]
    rfl
  | cons c writes ih =>
    have hstep := socketWrite_buffers hsock hbound hpeer hcap net c
    have hwritten : written (c :: writes) = written [c] ++ written writes := by
      unfold written
      rw [← List.singleton_append, List.filter_append, List.flatMap_append]
    have hrest := ih (socketFromHandle_withOutput hsock
        (((sockets i).stream.outbuf ++ written [c]).take streamOutSize))
      (by rw [withOutput_get]; exact hbound) (by rw [withOutput_get]; exact hpeer)
      (by rw [withOutput_get]; exact List.length_take_le _ _)
    unfold socketWrites at hrest ⊢
    rw [List.foldl_cons, hstep, hrest, withOutput_get, withOutput_withOutput, take_append_take,
      hwritten, List.append_assoc]

/-- The buffered bytes have been transmitted to the peer, and none is `left`. -/
def Flushed (w : Wire) (left : List UInt8) (net : Option Wire) (bytes : List UInt8) (ip : Ip)
    (port : ℕ) : Prop :=
  left = [] ∧ ∃ w' frames, net = some w' ∧ w'.transmitted = w.transmitted ++ frames ∧
    (frames.flatMap fun f => (carried f).payload) = bytes ∧
    ∀ f ∈ frames, byteAt f 23 = ipv4ProtocolUdp ∧ (carried f).dstIp = ip ∧
      (carried f).dstPort = port

/-- A flush with a peer succeeds exactly when there is nothing to send, or a route and
    one frame is enough. -/
theorem flushOutput_flushed_iff (w : Wire) (port : ℕ) {st : Stream} (hpeer : st.hasPeer = true)
    (hport : st.peerPort < 2 ^ 16) (hcap : st.outbuf.length ≤ streamOutSize) :
    Flushed w (flushOutput wireSend port st (some w)).1.outbuf
        (flushOutput wireSend port st (some w)).2 st.outbuf st.peerIp st.peerPort ↔
      st.outbuf = [] ∨ Routable w.host st.peerIp ∧ st.outbuf.length ≤ maxPayload := by
  by_cases hnil : st.outbuf = []
  · have hflush : flushOutput wireSend port st (some w) = (st, some w) := by
      simp [flushOutput, hnil]
    simp only [hflush, hnil, true_or, iff_true]
    exact ⟨rfl, w, [], rfl, (List.append_nil _).symm, rfl, by simp⟩
  have hempty : ¬ (!st.hasPeer || st.outbuf.length == 0) = true := by
    simp [hpeer, hnil]
  simp only [streamOutSize] at hcap
  unfold flushOutput
  simp only [if_neg hempty, hnil, false_or]
  obtain ⟨hroute, hsend⟩ | ⟨hroute, hwrap, hsend⟩ | ⟨hroute, hmax, hlen, host', hsend⟩ |
      ⟨hroute, hmax, frame, host', hsend, hcarries⟩ :=
    wireSend_cases w port st.peerIp st.peerPort st.outbuf
  · simp only [hsend, hroute, false_and, iff_false]
    rintro ⟨h, -⟩
    exact hnil h
  · simp only [udpHdrSize] at hwrap
    omega
  · simp only [hsend, hroute, true_and]
    constructor
    · rintro ⟨h, -⟩
      exact absurd h hnil
    · intro h
      omega
  · simp only [hsend, hroute, hmax, true_and, iff_true]
    refine ⟨rfl, _, [frame], rfl, rfl, ?_, ?_⟩
    · rw [List.flatMap_singleton, hcarries.payload]
    · intro f hf
      rw [List.mem_singleton.mp hf]
      refine ⟨hcarries.protocol, hcarries.dstIp, ?_⟩
      rw [hcarries.dstPort, Nat.mod_eq_of_lt hport]

theorem udpServerRecv_port_lt {servers servers' : Servers} {port maxLen srcPort : ℕ} {ip : Ip}
    {payload : List UInt8}
    (h : udpServerRecv servers port maxLen = some (ip, srcPort, payload, servers')) :
    srcPort < 2 ^ 16 := by
  obtain ⟨j, -, h⟩ := Option.bind_eq_some_iff.mp h
  obtain ⟨m, -, h⟩ := Option.bind_eq_some_iff.mp h
  dsimp only at h
  by_cases hcount : m.count = 0
  · rw [if_pos hcount] at h
    cases h
  · rw [if_neg hcount] at h
    cases h
    exact load_lt 2 m _

/-- The two calls that take a datagram. -/
inductive ReceiveCall
  | read
  | recvfrom

/-- The sockets and the network after one round of the call. -/
def ReceiveCall.run (sockets : Sockets) (servers : Servers) (net : Option Wire) (handle : ℤ)
    (buf len : ℕ) : ReceiveCall → Sockets × Option Wire
  | .read =>
    let (_, sockets, _, net) := socketRead wireSend sockets servers net handle buf len
    (sockets, net)
  | .recvfrom =>
    let (_, sockets, _, net) := socketRecvfrom sockets servers net handle buf len
    (sockets, net)

/-- The call on socket `sock` takes a datagram from port `port` of `ip`. -/
def ReceiveCall.Takes (sock : Socket) (servers : Servers) (len : ℕ) (ip : Ip) (port : ℕ) :
    ReceiveCall → Prop
  | .read => ¬ sock.stream.inPos < sock.stream.inbuf.length ∧
    ∃ payload servers', udpServerRecv servers sock.localPort streamBufSize =
      some (ip, port, payload, servers')
  | .recvfrom => sock.isRaw = false ∧
    ∃ payload servers', udpServerRecv servers sock.localPort len =
      some (ip, port, payload, servers')

theorem ReceiveCall.Takes.port_lt {sock : Socket} {servers : Servers} {len port : ℕ} {ip : Ip}
    {c : ReceiveCall} (h : c.Takes sock servers len ip port) : port < 2 ^ 16 := by
  cases c with
  | read | recvfrom =>
    obtain ⟨-, payload, servers', hrecv⟩ := h
    exact udpServerRecv_port_lt hrecv

/-- A call that takes a datagram makes its sender the peer and flushes the output. -/
theorem ReceiveCall.run_flushes (c : ReceiveCall)
    (hsock : socketFromHandle sockets handle = some i) (hbound : (sockets i).bound = true)
    {servers : Servers} {buf len port : ℕ} {ip : Ip} (hbuf : buf ≠ 0) (hlen : len ≤ 65535)
    (h : c.Takes (sockets i) servers len ip port) (net : Option Wire) :
    ∃ st : Stream, st.hasPeer = true ∧ st.peerIp = ip ∧ st.peerPort = port ∧
      st.outbuf = (sockets i).stream.outbuf ∧
      ((c.run sockets servers net handle buf len).1 i).stream.outbuf =
        (flushOutput wireSend (sockets i).localPort st net).1.outbuf ∧
      (c.run sockets servers net handle buf len).2 =
        (flushOutput wireSend (sockets i).localPort st net).2 := by
  cases c with
  | read =>
    obtain ⟨hdrained, payload, servers', hrecv⟩ := h
    have hargs : ¬ (!(sockets i).bound || buf == 0 || decide (len > 65535)) = true := by
      simp [hbound, hbuf, hlen]
    refine ⟨{ (sockets i).stream with
      hasPeer := true, peerIp := ip, peerPort := port, inbuf := payload, inPos := 0 },
      rfl, rfl, rfl, rfl, ?_, ?_⟩
    · simp only [run, socketRead, hsock, if_neg hargs, streamRead, if_neg hdrained, pollStream,
        hrecv, drainStream, Function.update_self]
    · simp only [run, socketRead, hsock, if_neg hargs, streamRead, if_neg hdrained, pollStream,
        hrecv]
  | recvfrom =>
    obtain ⟨hraw, payload, servers', hrecv⟩ := h
    have hargs : ¬ (buf = 0 ∨ len > 65535) := by omega
    refine ⟨{ (sockets i).stream with hasPeer := true, peerIp := ip, peerPort := port },
      rfl, rfl, rfl, rfl, ?_, ?_⟩
    · simp only [run, socketRecvfrom, hsock, if_neg hargs, hraw, hbound, hrecv,
        Bool.false_eq_true, if_false, Bool.not_true, Function.update_self]
    · simp only [run, socketRecvfrom, hsock, if_neg hargs, hraw, hbound, hrecv,
        Bool.false_eq_true, if_false, Bool.not_true]

/-- What has been written to a bound socket before it has a peer is sent to the sender of
    the first datagram that `socket_read` or `socket_recvfrom` takes, if and only if
    nothing was written, or there is a route to the sender and at most 2006 bytes were
    written. -/
theorem buffered_output_flushed_iff (c : ReceiveCall)
    (hsock : socketFromHandle sockets handle = some i) (hbound : (sockets i).bound = true)
    (hpeer : (sockets i).stream.hasPeer = false) (hout : (sockets i).stream.outbuf = [])
    (writes : List (ℕ × List UInt8)) {servers : Servers} {buf len port : ℕ} {ip : Ip}
    (hbuf : buf ≠ 0) (hlen : len ≤ 65535) (h : c.Takes (sockets i) servers len ip port) :
    Flushed w
        ((c.run (socketWrites sockets (some w) handle writes).1 servers
          (socketWrites sockets (some w) handle writes).2 handle buf len).1 i).stream.outbuf
        (c.run (socketWrites sockets (some w) handle writes).1 servers
          (socketWrites sockets (some w) handle writes).2 handle buf len).2
        ((written writes).take streamOutSize) ip port ↔
      written writes = [] ∨ Routable w.host ip ∧ (written writes).length ≤ maxPayload := by
  have hwrites := socketWrites_buffer hsock hbound hpeer (by rw [hout]; exact Nat.zero_le _)
    (some w) writes
  rw [hout, List.nil_append] at hwrites
  rw [hwrites]
  -- what `Takes` looks at is the same after the writes
  have htakes : c.Takes (withOutput sockets i ((written writes).take streamOutSize) i) servers len
      ip port := by
    rw [withOutput_get]
    cases c with
    | read | recvfrom => exact h
  obtain ⟨st, hst, hip, hport, hbytes, hleft, hnet⟩ := c.run_flushes
    (socketFromHandle_withOutput hsock _) (by rw [withOutput_get]; exact hbound) hbuf hlen htakes
    (some w)
  rw [withOutput_get] at hbytes
  have hbytes : st.outbuf = (written writes).take streamOutSize := hbytes
  have hiff := flushOutput_flushed_iff w
    (withOutput sockets i ((written writes).take streamOutSize) i).localPort hst
    (by rw [hport]; exact h.port_lt) (by rw [hbytes]; exact List.length_take_le _ _)
  rw [hip, hport, hbytes, List.length_take] at hiff
  rw [hleft, hnet, hiff]
  have hnil : (written writes).take streamOutSize = [] ↔ written writes = [] := by
    rw [List.take_eq_nil_iff]
    simp
  rw [hnil]
  simp only [streamOutSize, maxPayload]
  have hmin : min 2048 (written writes).length ≤ 2006 ↔ (written writes).length ≤ 2006 := by
    omega
  rw [hmin]

end Flush

/-- A socket bound to port 7. -/
def boundSockets : Sockets :=
  Function.update (fun _ => Socket.zero) 0
    { Socket.zero with used := true, refs := 1, domain := afInet, type := sockDgram,
                       localPort := 7, bound := true }

/-- The server on port 7 with one datagram in its queue, from port 4000 of `10.0.0.9`. -/
def oneQueued : Servers := fun i =>
  if i = 0 then some (udpServerEnqueue (fun x => if x = 0 then 7 else 0)
    ⟨⟨10, 0, 0, 9⟩, 4000, ⟨10, 0, 0, 2⟩, 7, [104, 105]⟩)
  else none

theorem buffered_output_flushed_hello :
    ∃ net, (ReceiveCall.read.run
        (socketWrites boundSockets (some ⟨exampleHost, []⟩) (-4096) [(1, [104, 105, 33])]).1
        oneQueued
        (socketWrites boundSockets (some ⟨exampleHost, []⟩) (-4096) [(1, [104, 105, 33])]).2
        (-4096) 1 64).2 = some net ∧
      (net.transmitted.flatMap fun f => (carried f).payload) = [104, 105, 33] := by
  have hrecv : (udpServerRecv oneQueued 7 streamBufSize).map (fun r => (r.1, r.2.1)) =
      some (⟨10, 0, 0, 9⟩, 4000) := by decide +kernel
  obtain ⟨⟨ip, port, payload, servers'⟩, hrecv, hpair⟩ := Option.map_eq_some_iff.mp hrecv
  cases hpair
  have htakes : ReceiveCall.read.Takes (boundSockets 0) oneQueued 64 ⟨10, 0, 0, 9⟩ 4000 :=
    ⟨by decide, payload, servers', hrecv⟩
  have hiff := buffered_output_flushed_iff (w := ⟨exampleHost, []⟩) .read
    (show socketFromHandle boundSockets (-4096) = some 0 by decide) rfl rfl rfl
    [(1, [104, 105, 33])] (show 1 ≠ 0 by decide) (show 64 ≤ 65535 by decide) htakes
  obtain ⟨-, net, frames, hnet, hsent, hbytes, -⟩ :=
    hiff.mpr (.inr ⟨⟨rfl, rfl⟩, by decide⟩)
  refine ⟨net, hnet, ?_⟩
  rw [hsent]
  exact hbytes

/-- 2048 bytes fill the output buffer; they are still there after the first datagram. -/
theorem full_output_buffer_stays :
    ¬ Flushed ⟨exampleHost, []⟩
      ((ReceiveCall.read.run
        (socketWrites boundSockets (some ⟨exampleHost, []⟩) (-4096)
          [(1, List.replicate 2048 0x61)]).1
        oneQueued
        (socketWrites boundSockets (some ⟨exampleHost, []⟩) (-4096)
          [(1, List.replicate 2048 0x61)]).2 (-4096) 1 64).1 0).stream.outbuf
      (ReceiveCall.read.run
        (socketWrites boundSockets (some ⟨exampleHost, []⟩) (-4096)
          [(1, List.replicate 2048 0x61)]).1
        oneQueued
        (socketWrites boundSockets (some ⟨exampleHost, []⟩) (-4096)
          [(1, List.replicate 2048 0x61)]).2 (-4096) 1 64).2
      ((written [(1, List.replicate 2048 0x61)]).take streamOutSize) ⟨10, 0, 0, 9⟩ 4000 := by
  rintro ⟨h, -⟩
  revert h
  decide +kernel

end Mboot.Net
