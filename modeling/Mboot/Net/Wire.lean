import Mboot.Net.Model

/-!
# What the receive path accepts

The conditions under which `eth_process_packet` delivers a UDP datagram, as a
predicate on the bytes of the frame (`AcceptsUdp`), and the datagram it then
delivers (`carried`).

* `ethProcessPacket_spec`: on every frame the receive path reads only inside
  the frame, leaves it as it was, and hands on a datagram exactly when the
  frame is accepted.
-/

namespace Mboot.Net

open Common

/-! ## Fields of a frame -/

/-- The byte at `i`. -/
def byteAt (frame : List UInt8) (i : ℕ) : UInt8 := frame.getD i 0

/-- The big-endian 16-bit field at `i`. -/
def be16At (frame : List UInt8) (i : ℕ) : ℕ :=
  (byteAt frame i).toNat * 256 + (byteAt frame (i + 1)).toNat

/-- The address at `i`. -/
def ipAt (frame : List UInt8) (i : ℕ) : Ip :=
  ⟨byteAt frame i, byteAt frame (i + 1), byteAt frame (i + 2), byteAt frame (i + 3)⟩

theorem be16At_lt (frame : List UInt8) (i : ℕ) : be16At frame i < 2 ^ 16 := by
  have h1 := (byteAt frame i).toNat_lt
  have h2 := (byteAt frame (i + 1)).toNat_lt
  unfold be16At
  omega

section Fields

variable {frame : List UInt8} {i n : ℕ}

theorem getElem?_eq_byteAt (h : i < frame.length) : frame[i]? = some (byteAt frame i) := by
  rw [byteAt, List.getD_eq_getElem _ _ h, List.getElem?_eq_getElem h]

theorem readBe16_eq (h : i + 2 ≤ frame.length) : readBe16 frame i = some (be16At frame i) := by
  unfold readBe16
  rw [getElem?_eq_byteAt (show i < frame.length by omega),
    getElem?_eq_byteAt (show i + 1 < frame.length by omega)]
  rfl

theorem readIp_eq (h : i + 4 ≤ frame.length) : readIp frame i = some (ipAt frame i) := by
  unfold readIp
  rw [getElem?_eq_byteAt (show i < frame.length by omega),
    getElem?_eq_byteAt (show i + 1 < frame.length by omega),
    getElem?_eq_byteAt (show i + 2 < frame.length by omega),
    getElem?_eq_byteAt (show i + 3 < frame.length by omega)]
  rfl

theorem bytesAt_eq (h : i + n ≤ frame.length) :
    bytesAt frame i n = some ((frame.drop i).take n) := if_pos h

@[simp] theorem length_writeBe16 (frame : List UInt8) (i x : ℕ) :
    (writeBe16 frame i x).length = frame.length := by
  simp [writeBe16]

/-- Clearing a field and storing its old value again leaves the frame as it
    was. -/
theorem writeBe16_restore (frame : List UInt8) (i x : ℕ) :
    writeBe16 (writeBe16 frame i x) i (be16At frame i) = frame := by
  have hhi : UInt8.ofNat (be16At frame i / 256) = byteAt frame i := by
    have hlo := (byteAt frame (i + 1)).toNat_lt
    rw [be16At, show ((byteAt frame i).toNat * 256 + (byteAt frame (i + 1)).toNat) / 256 =
      (byteAt frame i).toNat by omega, UInt8.ofNat_toNat]
  have hlo : UInt8.ofNat (be16At frame i) = byteAt frame (i + 1) := by
    apply UInt8.toNat_inj.mp
    have hlt := (byteAt frame (i + 1)).toNat_lt
    rw [UInt8.toNat_ofNat', be16At]
    omega
  apply List.ext_getElem
  · simp
  · intro j h1 h2
    have hj : frame[j] = byteAt frame j := (List.getD_eq_getElem _ _ h2).symm
    simp only [writeBe16, hhi, hlo, List.getElem_set, hj]
    split_ifs <;> simp_all

end Fields

/-! ## Accepted frames -/

/-- The IPv4 header length of the packet in a frame. -/
def headerLen (frame : List UInt8) : ℕ := (byteAt frame 14 &&& 0x0F).toNat * 4

/-- The `total_length` field. -/
def totalLen (frame : List UInt8) : ℕ := be16At frame 16

/-- Where the UDP header starts. -/
def udpOff (frame : List UInt8) : ℕ := ethHdrSize + headerLen frame

/-- The `dgram_len` field of the UDP header. -/
def udpLenField (frame : List UInt8) : ℕ := be16At frame (udpOff frame + 4)

/-- The frame holds an unfragmented IPv4 packet for the host with a right
    header checksum. -/
structure AcceptsIpv4 (host : Host) (frame : List UInt8) : Prop where
  length : ethHdrSize + ipv4HdrSize ≤ frame.length
  ethertype : be16At frame 12 = 0x0800
  version : byteAt frame 14 >>> 4 = 4
  ihl : ipv4HdrSize ≤ headerLen frame
  ihl_le : headerLen frame ≤ totalLen frame
  total_le : ethHdrSize + totalLen frame ≤ frame.length
  checksum : be16At frame 24 =
    ipv4Checksum (((writeBe16 frame 24 0).drop ethHdrSize).take (headerLen frame))
  fragment : be16At frame 20 &&& 0x3FFF = 0
  dst : ¬ ipv4NotForUs host (ipAt frame 30)

/-- The frame holds a UDP datagram for the host whose length field fits the
    packet and whose checksum is absent or right. -/
structure AcceptsUdp (host : Host) (frame : List UInt8) : Prop extends AcceptsIpv4 host frame where
  protocol : byteAt frame 23 = ipv4ProtocolUdp
  dgram : udpHdrSize ≤ udpLenField frame
  dgram_le : headerLen frame + udpLenField frame ≤ totalLen frame
  udpChecksum : be16At frame (udpOff frame + 6) = 0 ∨
    Net.udpChecksum (ipAt frame 26) (ipAt frame 30)
      ((frame.drop (udpOff frame)).take (udpLenField frame)) = 0

/-- The datagram in an accepted frame. -/
def carried (frame : List UInt8) : Datagram where
  srcIp := ipAt frame 26
  srcPort := be16At frame (udpOff frame)
  dstIp := ipAt frame 30
  dstPort := be16At frame (udpOff frame + 2)
  payload := (frame.drop (udpOff frame + udpHdrSize)).take (udpLenField frame - udpHdrSize)

theorem length_carried {host : Host} {frame : List UInt8} (h : AcceptsUdp host frame) :
    (carried frame).payload.length = udpLenField frame - udpHdrSize := by
  have h1 := h.total_le
  have h2 := h.dgram_le
  rw [carried, List.length_take, List.length_drop]
  unfold udpOff
  omega

/-! ## The receive functions -/

/-- The result of a receive function that reads inside the frame and leaves it
    as it was: it delivers the datagram `d` if `ok` holds, and no datagram
    otherwise. -/
def Delivers (frame : List UInt8) (result : Option (List UInt8 × Rx)) (ok : Prop) (d : Datagram) :
    Prop :=
  ∃ r, result = some (frame, r) ∧ (ok → r = .udp d) ∧ (¬ ok → ∀ d', r ≠ .udp d')

theorem Delivers.other {frame : List UInt8} {ok : Prop} {r : Rx} (d : Datagram)
    (hr : ∀ d', r ≠ .udp d') (h : ¬ ok) : Delivers frame (some (frame, r)) ok d :=
  ⟨r, rfl, fun hok => absurd hok h, fun _ => hr⟩

theorem Delivers.dropped {frame : List UInt8} {ok : Prop} (d : Datagram) (h : ¬ ok) :
    Delivers frame (some (frame, .dropped)) ok d := Delivers.other d (by simp) h

theorem Delivers.congr {frame : List UInt8} {result : Option (List UInt8 × Rx)} {ok ok' : Prop}
    {d : Datagram} (h : Delivers frame result ok d) (hiff : ok ↔ ok') :
    Delivers frame result ok' d := by
  rwa [propext hiff] at h

theorem Delivers.udp {frame : List UInt8} {ok : Prop} (d : Datagram) (h : ok) :
    Delivers frame (some (frame, .udp d)) ok d :=
  ⟨_, rfl, fun _ => rfl, fun hn => absurd h hn⟩

/-- `udp_process_packet` on the UDP part of a packet inside the frame. -/
theorem udpProcessPacket_spec {frame : List UInt8} (hip : ethHdrSize + ipv4HdrSize ≤ frame.length)
    {udpLen : ℕ} (hlen : udpOff frame + udpLen ≤ frame.length) :
    Delivers frame (udpProcessPacket frame ethHdrSize (udpOff frame) udpLen)
      (udpHdrSize ≤ udpLenField frame ∧ udpLenField frame ≤ udpLen ∧
        (be16At frame (udpOff frame + 6) = 0 ∨
          udpChecksum (ipAt frame 26) (ipAt frame 30)
            ((frame.drop (udpOff frame)).take (udpLenField frame)) = 0))
      (carried frame) := by
  unfold udpProcessPacket
  have hfield : be16At frame (udpOff frame + 4) = udpLenField frame := rfl
  simp only [ethHdrSize, ipv4HdrSize, udpHdrSize] at hip ⊢
  by_cases hrunt : udpLen < 8
  · rw [if_pos hrunt]
    exact Delivers.dropped _ fun h => by omega
  rw [if_neg hrunt, readBe16_eq (by omega), readBe16_eq (by omega), readBe16_eq (by omega), hfield]
  simp only [Option.bind_eq_bind, Option.bind_some, Option.pure_def]
  by_cases hmal : udpLenField frame < 8 ∨ udpLenField frame > udpLen
  · rw [if_pos hmal]
    exact Delivers.dropped _ fun h => by omega
  rw [if_neg hmal, readIp_eq (by omega), readIp_eq (by omega), readBe16_eq (by omega)]
  simp only [Option.bind_some, writeBe16_restore, ite_self,
    bytesAt_eq (show udpOff frame + udpLenField frame ≤ frame.length by omega)]
  by_cases hck : be16At frame (udpOff frame + 6) ≠ 0 ∧
      udpChecksum (ipAt frame 26) (ipAt frame 30)
        ((frame.drop (udpOff frame)).take (udpLenField frame)) ≠ 0
  · rw [if_pos hck]
    exact Delivers.dropped _ fun h => h.2.2.elim hck.1 hck.2
  · rw [if_neg hck, bytesAt_eq (by omega)]
    rw [not_and_or, not_not, not_not] at hck
    exact Delivers.udp _ ⟨by omega, by omega, hck⟩

/-- `ipv4_process_packet` on the packet behind the Ethernet header. -/
theorem ipv4ProcessPacket_spec {host : Host} {frame : List UInt8}
    (heth : ethHdrSize ≤ frame.length) (htype : be16At frame 12 = 0x0800) :
    Delivers frame (ipv4ProcessPacket host frame ethHdrSize (frame.length - ethHdrSize))
      (AcceptsUdp host frame) (carried frame) := by
  unfold ipv4ProcessPacket
  simp only [ethHdrSize, ipv4HdrSize] at heth ⊢
  by_cases hshort : frame.length - 14 < 20
  · rw [if_pos hshort]
    refine Delivers.dropped _ fun h => ?_
    have hlen : 14 + 20 ≤ frame.length := h.length
    omega
  have hihl : (byteAt frame 14 &&& 0x0F).toNat * 4 = headerLen frame := rfl
  have htot : be16At frame (14 + 2) = totalLen frame := rfl
  rw [if_neg hshort, getElem?_eq_byteAt (by omega), readBe16_eq (by omega)]
  simp only [Option.bind_eq_bind, Option.bind_some, Option.pure_def, hihl, htot]
  by_cases hmal : byteAt frame 14 >>> 4 ≠ 4 ∨ headerLen frame < 20 ∨
      frame.length - 14 < headerLen frame ∨ totalLen frame < headerLen frame ∨
      totalLen frame > frame.length - 14
  · rw [if_pos hmal]
    refine Delivers.dropped _ fun h => ?_
    have h1 : 20 ≤ headerLen frame := h.ihl
    have h2 := h.ihl_le
    have h3 : 14 + totalLen frame ≤ frame.length := h.total_le
    rcases hmal with hv | hrest
    · exact hv h.version
    · omega
  push Not at hmal
  obtain ⟨hver, h1, h2, h3, h4⟩ := hmal
  have hck : be16At frame (14 + 10) = be16At frame 24 := rfl
  rw [if_neg (by push Not; exact ⟨hver, h1, h2, h3, h4⟩), readBe16_eq (by omega), Option.bind_some,
    bytesAt_eq (by rw [length_writeBe16]; omega), Option.bind_some, writeBe16_restore, hck]
  by_cases hsum : be16At frame 24 ≠
      ipv4Checksum (((writeBe16 frame 24 0).drop 14).take (headerLen frame))
  · rw [if_pos hsum]
    exact Delivers.dropped _ fun h => hsum h.checksum
  rw [if_neg hsum, readBe16_eq (by omega), Option.bind_some]
  rw [not_not] at hsum
  by_cases hfrag : be16At frame (14 + 6) &&& 0x3FFF ≠ 0 ∨ be16At frame (14 + 6) &&& 0x2000 ≠ 0
  · rw [if_pos hfrag]
    refine Delivers.dropped _ fun h => ?_
    have h14 : be16At frame (14 + 6) &&& 0x3FFF = 0 := h.fragment
    have h13 : be16At frame (14 + 6) &&& 0x2000 = 0 := by
      rw [show (0x2000 : ℕ) = 0x3FFF &&& 0x2000 by rfl, ← Nat.land_assoc, h14, Nat.zero_and]
    exact hfrag.elim (fun hne => hne h14) fun hne => hne h13
  rw [if_neg hfrag, readIp_eq (by omega), Option.bind_some]
  rw [not_or, not_not, not_not] at hfrag
  by_cases hdst : ipv4NotForUs host (ipAt frame (14 + 16))
  · rw [if_pos hdst]
    exact Delivers.dropped _ fun h => h.dst hdst
  rw [if_neg hdst, getElem?_eq_byteAt (by omega), Option.bind_some]
  have hip : AcceptsIpv4 host frame :=
    ⟨by simp only [ethHdrSize, ipv4HdrSize]; omega, htype, hver, h1, h3,
      by simp only [ethHdrSize]; omega, hsum, hfrag.1, hdst⟩
  have hproto : byteAt frame (14 + 9) = byteAt frame 23 := rfl
  rw [hproto]
  split_ifs with hicmp hudp
  · refine Delivers.other _ (by simp) fun h => ?_
    rw [h.protocol] at hicmp
    exact absurd hicmp (by decide)
  · have hoff : 14 + headerLen frame = udpOff frame := rfl
    rw [hoff]
    refine (udpProcessPacket_spec hip.length ?_).congr ⟨fun h => ?_, fun h => ?_⟩
    · rw [← hoff]
      omega
    · exact ⟨hip, hudp, h.1, by omega, h.2.2⟩
    · have hle := h.dgram_le
      exact ⟨h.dgram, by omega, h.udpChecksum⟩
  · exact Delivers.dropped _ fun h => hudp h.protocol

/-- On every frame the receive path reads only inside the frame, leaves it as
    it was, and delivers the datagram in the frame exactly when the frame is
    accepted. -/
theorem ethProcessPacket_spec (host : Host) (frame : List UInt8) :
    Delivers frame (ethProcessPacket host frame) (AcceptsUdp host frame) (carried frame) := by
  unfold ethProcessPacket
  by_cases hlen : frame.length < ethHdrSize
  · rw [if_pos hlen]
    refine Delivers.dropped _ fun h => ?_
    have hlen' : 14 + 20 ≤ frame.length := h.length
    simp only [ethHdrSize] at hlen
    omega
  rw [if_neg hlen, readBe16_eq (by simp only [ethHdrSize] at hlen; omega)]
  simp only [Option.bind_eq_bind, Option.bind_some, Option.pure_def]
  split_ifs with harp hipv4
  · refine Delivers.other _ (by simp) fun h => ?_
    rw [h.ethertype] at harp
    exact absurd harp (by decide)
  · exact ipv4ProcessPacket_spec (by omega) hipv4
  · exact Delivers.dropped _ fun h => hipv4 h.ethertype

end Mboot.Net
