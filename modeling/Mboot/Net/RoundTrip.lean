import Mboot.Net.Wire

/-!
# UDP wire round trip

The frame that `udp_send` hands to `e1k_send`, given unchanged to a host with
the destination address, delivers the datagram that was sent.

* `udpChecksum_udpSegment`: the checksum that `udp_send` stores makes the sum
  over the segment verify, also when it is sent as `0xFFFF` in place of 0.
* `sent_frame_accepted`, `carried_sent_frame`: the frame is accepted and
  carries the datagram; the padding is cut off by `total_length`.
* `udpServerEnqueue_spec`: what is stored in the queue.
* `udp_round_trip`: the composition.
-/

namespace Mboot.Net

open Common

/-! ## Fields and checksums -/

theorem be16_value {x : ℕ} (h : x < 2 ^ 16) :
    (UInt8.ofNat (x / 256)).toNat * 256 + (UInt8.ofNat x).toNat = x := by
  rw [UInt8.toNat_ofNat', UInt8.toNat_ofNat']
  omega

theorem wordSum_be16 {x : ℕ} (h : x < 2 ^ 16) (bytes : List UInt8) :
    wordSum (be16 x ++ bytes) = x + wordSum bytes := by
  rw [be16, List.cons_append, List.cons_append, List.nil_append, wordSum, be16_value h]

theorem foldCarry_le (s : ℕ) : foldCarry (2 ^ 16) s ≤ 0xFFFF := by
  rw [foldCarry_eq (by decide)]
  exact onesRep_le (by decide) s

theorem ipv4Checksum_lt (bytes : List UInt8) : ipv4Checksum bytes < 2 ^ 16 := by
  unfold ipv4Checksum
  omega

theorem udpChecksum_lt (srcIp dstIp : Ip) (segment : List UInt8) :
    udpChecksum srcIp dstIp segment < 2 ^ 16 := by
  unfold udpChecksum
  omega

/-- The checksum field that `udp_send` stores. -/
def sentChecksum (srcIp dstIp : Ip) (srcPort dstPort : UInt16) (payload : List UInt8) : ℕ :=
  let checksum := udpChecksum srcIp dstIp
    (udpHeader srcPort.toNat dstPort.toNat (udpHdrSize + payload.length) 0 ++ payload)
  if checksum = 0 then 0xFFFF else checksum

theorem udpSegment_eq (srcIp dstIp : Ip) (srcPort dstPort : UInt16) (payload : List UInt8) :
    udpSegment srcIp dstIp srcPort dstPort payload =
      udpHeader srcPort.toNat dstPort.toNat (udpHdrSize + payload.length)
        (sentChecksum srcIp dstIp srcPort dstPort payload) ++ payload := rfl

theorem sentChecksum_ne_zero (srcIp dstIp : Ip) (srcPort dstPort : UInt16)
    (payload : List UInt8) : sentChecksum srcIp dstIp srcPort dstPort payload ≠ 0 := by
  unfold sentChecksum
  dsimp only
  split_ifs with h
  · decide
  · exact h

theorem sentChecksum_lt (srcIp dstIp : Ip) (srcPort dstPort : UInt16)
    (payload : List UInt8) : sentChecksum srcIp dstIp srcPort dstPort payload < 2 ^ 16 := by
  unfold sentChecksum
  dsimp only
  split_ifs
  · decide
  · exact udpChecksum_lt _ _ _

@[simp] theorem length_udpHeader (srcPort dstPort dgramLen checksum : ℕ) :
    (udpHeader srcPort dstPort dgramLen checksum).length = udpHdrSize := rfl

theorem wordSum_udpHeader {srcPort dstPort dgramLen checksum : ℕ} (h1 : srcPort < 2 ^ 16)
    (h2 : dstPort < 2 ^ 16) (h3 : dgramLen < 2 ^ 16) (h4 : checksum < 2 ^ 16)
    (payload : List UInt8) :
    wordSum (udpHeader srcPort dstPort dgramLen checksum ++ payload) =
      srcPort + dstPort + dgramLen + wordSum payload + checksum := by
  rw [udpHeader, List.append_assoc, List.append_assoc, List.append_assoc, wordSum_be16 h1,
    wordSum_be16 h2, wordSum_be16 h3, wordSum_be16 h4]
  omega

/-- The segment that `udp_send` builds verifies. -/
theorem udpChecksum_udpSegment (srcIp dstIp : Ip) (srcPort dstPort : UInt16)
    {payload : List UInt8} (hlen : udpHdrSize + payload.length < 2 ^ 16) :
    udpChecksum srcIp dstIp (udpSegment srcIp dstIp srcPort dstPort payload) = 0 := by
  have hsp := srcPort.toNat_lt
  have hdp := dstPort.toNat_lt
  -- the sum over the segment with a cleared checksum field
  obtain ⟨s, hs⟩ : ∃ s, s = pseudoSum srcIp dstIp (udpHdrSize + payload.length) +
      (srcPort.toNat + dstPort.toNat + (udpHdrSize + payload.length) + wordSum payload) := ⟨_, rfl⟩
  have hpos : 0 < s := by
    rw [hs, pseudoSum, show ipv4ProtocolUdp.toNat = 17 by rfl]
    omega
  have hsum : ∀ c < 2 ^ 16, udpChecksum srcIp dstIp
      (udpHeader srcPort.toNat dstPort.toNat (udpHdrSize + payload.length) c ++ payload) =
      0xFFFF - foldCarry (2 ^ 16) (s + c) := by
    intro c hc
    rw [udpChecksum, List.length_append, length_udpHeader,
      wordSum_udpHeader hsp hdp hlen hc, hs, ← Nat.add_assoc (pseudoSum _ _ _)]
  rw [udpSegment_eq, hsum _ (sentChecksum_lt ..)]
  have hle := foldCarry_le s
  have hck : sentChecksum srcIp dstIp srcPort dstPort payload =
      if 0xFFFF - foldCarry (2 ^ 16) s = 0 then 0xFFFF else 0xFFFF - foldCarry (2 ^ 16) s := by
    rw [sentChecksum, hsum 0 (by decide), Nat.add_zero]
  rw [hck]
  split_ifs with h0
  · have hones := foldCarry_add_ones (b := 2 ^ 16) (by decide) hpos
    rw [show (0xFFFF : ℕ) = 2 ^ 16 - 1 by rfl, hones]
    omega
  · have hcompl := foldCarry_add_complement (b := 2 ^ 16) (by decide) hpos
    rw [show (0xFFFF : ℕ) = 2 ^ 16 - 1 by rfl, hcompl]
    rfl

/-! ## The frame -/

section Frame

variable (host : Host) (srcIp dstIp : Ip) (mac : Mac) (ident : ℕ) (payload : List UInt8)

/-- The bytes in front of the IPv4 payload. -/
def sentHeaders : List UInt8 :=
  mac.bytes ++ host.mac.bytes ++ be16 0x0800 ++
    ipv4Header (ipv4HdrSize + payload.length) ident
      (ipv4Checksum (ipv4Header (ipv4HdrSize + payload.length) ident 0 ipv4ProtocolUdp srcIp dstIp))
      ipv4ProtocolUdp srcIp dstIp

theorem ipv4SendPacket_eq :
    ∃ padding, ipv4SendPacket host srcIp dstIp mac ipv4ProtocolUdp ident payload =
      sentHeaders host srcIp dstIp mac ident payload ++ (payload ++ padding) :=
  ⟨_, List.append_assoc ..⟩

variable {host srcIp dstIp mac ident payload} {rest : List UInt8}

theorem be16At_total (h : ipv4HdrSize + payload.length < 2 ^ 16) :
    totalLen (sentHeaders host srcIp dstIp mac ident payload ++ rest) =
      ipv4HdrSize + payload.length := be16_value h

theorem be16At_checksum :
    be16At (sentHeaders host srcIp dstIp mac ident payload ++ rest) 24 =
      ipv4Checksum
        (ipv4Header (ipv4HdrSize + payload.length) ident 0 ipv4ProtocolUdp srcIp dstIp) :=
  be16_value (ipv4Checksum_lt _)

theorem be16At_ethertype :
    be16At (sentHeaders host srcIp dstIp mac ident payload ++ rest) 12 = 0x0800 :=
  be16_value (show 0x0800 < 2 ^ 16 by decide)

theorem be16At_fragment :
    be16At (sentHeaders host srcIp dstIp mac ident payload ++ rest) 20 = 0x4000 :=
  be16_value (show 0x4000 < 2 ^ 16 by decide)

theorem byteAt_versionIhl :
    byteAt (sentHeaders host srcIp dstIp mac ident payload ++ rest) 14 = 0x45 := rfl

theorem ipAt_src_sent :
    ipAt (sentHeaders host srcIp dstIp mac ident payload ++ rest) 26 = srcIp := rfl

theorem ipAt_dst_sent :
    ipAt (sentHeaders host srcIp dstIp mac ident payload ++ rest) 30 = dstIp := rfl

theorem headerLen_sent :
    headerLen (sentHeaders host srcIp dstIp mac ident payload ++ rest) = 20 := by
  rw [headerLen, byteAt_versionIhl]
  decide

theorem clearedHeader :
    ((writeBe16 (sentHeaders host srcIp dstIp mac ident payload ++ rest) 24 0).drop
      ethHdrSize).take 20 =
      ipv4Header (ipv4HdrSize + payload.length) ident 0 ipv4ProtocolUdp srcIp dstIp := rfl

theorem length_sentHeaders : (sentHeaders host srcIp dstIp mac ident payload).length = 34 := rfl

/-- An IPv4 packet built by `ipv4_send_packet` is accepted by its destination. -/
theorem sent_ipv4_accepted {receiver : Host} (hlen : ipv4HdrSize + payload.length < 2 ^ 16)
    (hrest : payload.length ≤ rest.length) (hlocal : receiver.localIp = some dstIp) :
    AcceptsIpv4 receiver (sentHeaders host srcIp dstIp mac ident payload ++ rest) where
  length := by
    rw [List.length_append, length_sentHeaders]
    exact Nat.le_add_right 34 _
  ethertype := be16At_ethertype
  version := by
    rw [byteAt_versionIhl]
    decide
  ihl := headerLen_sent.ge
  ihl_le := by
    rw [be16At_total hlen, headerLen_sent]
    exact Nat.le_add_right 20 _
  total_le := by
    rw [be16At_total hlen, List.length_append, length_sentHeaders]
    simp only [ethHdrSize, ipv4HdrSize]
    omega
  checksum := by
    rw [headerLen_sent, clearedHeader, be16At_checksum]
  fragment := by
    rw [be16At_fragment]
    decide
  dst := by
    rw [ipAt_dst_sent]
    rintro ⟨⟨l, hl, hne⟩, -⟩
    rw [hlocal] at hl
    exact hne (Option.mem_some.mp hl).symm

variable {srcPort dstPort : UInt16}

theorem udpOff_sent :
    udpOff (sentHeaders host srcIp dstIp mac ident payload ++ rest) = 34 := by
  rw [udpOff, headerLen_sent]

end Frame

section Datagram

variable {host : Host} {srcIp dstIp : Ip} {mac : Mac} {ident : ℕ} {srcPort dstPort : UInt16}
  {payload padding : List UInt8}

/-- The frame that carries the payload, with its padding. -/
abbrev sentFrame (host : Host) (srcIp dstIp : Ip) (mac : Mac) (ident : ℕ)
    (srcPort dstPort : UInt16) (payload padding : List UInt8) : List UInt8 :=
  sentHeaders host srcIp dstIp mac ident (udpSegment srcIp dstIp srcPort dstPort payload) ++
    (udpSegment srcIp dstIp srcPort dstPort payload ++ padding)

theorem length_udpSegment (srcIp dstIp : Ip) (srcPort dstPort : UInt16) (payload : List UInt8) :
    (udpSegment srcIp dstIp srcPort dstPort payload).length = udpHdrSize + payload.length := by
  rw [udpSegment_eq, List.length_append, length_udpHeader]

theorem udpLenField_sent (hlen : udpHdrSize + payload.length < 2 ^ 16) :
    udpLenField (sentFrame host srcIp dstIp mac ident srcPort dstPort payload padding) =
      udpHdrSize + payload.length := by
  rw [udpLenField, udpOff_sent]
  exact be16_value hlen

theorem checksumField_sent :
    be16At (sentFrame host srcIp dstIp mac ident srcPort dstPort payload padding) 40 =
      sentChecksum srcIp dstIp srcPort dstPort payload :=
  be16_value (sentChecksum_lt srcIp dstIp srcPort dstPort payload)

theorem segment_sent :
    ((sentFrame host srcIp dstIp mac ident srcPort dstPort payload padding).drop 34).take
      (udpHdrSize + payload.length) = udpSegment srcIp dstIp srcPort dstPort payload := by
  rw [List.drop_left' length_sentHeaders, List.take_left' (length_udpSegment ..)]

theorem carried_sent_frame (hlen : udpHdrSize + payload.length < 2 ^ 16) :
    carried (sentFrame host srcIp dstIp mac ident srcPort dstPort payload padding) =
      ⟨srcIp, srcPort.toNat, dstIp, dstPort.toNat, payload⟩ := by
  have hpayload : ((sentFrame host srcIp dstIp mac ident srcPort dstPort payload padding).drop
      (34 + udpHdrSize)).take (udpHdrSize + payload.length - udpHdrSize) = payload := by
    rw [← List.drop_drop, List.drop_left' length_sentHeaders, udpSegment_eq, List.append_assoc,
      List.drop_left' (length_udpHeader ..), Nat.add_sub_cancel_left, List.take_left' rfl]
  rw [carried, udpOff_sent, udpLenField_sent hlen, hpayload]
  have hsrc : be16At (sentFrame host srcIp dstIp mac ident srcPort dstPort payload padding) 34 =
      srcPort.toNat := be16_value srcPort.toNat_lt
  have hdst : be16At (sentFrame host srcIp dstIp mac ident srcPort dstPort payload padding)
      (34 + 2) = dstPort.toNat := be16_value dstPort.toNat_lt
  rw [hsrc, hdst, ipAt_src_sent, ipAt_dst_sent]

theorem sent_frame_accepted {receiver : Host}
    (hlen : ipv4HdrSize + (udpHdrSize + payload.length) < 2 ^ 16)
    (hlocal : receiver.localIp = some dstIp) :
    AcceptsUdp receiver (sentFrame host srcIp dstIp mac ident srcPort dstPort payload padding) := by
  have hsmall : udpHdrSize + payload.length < 2 ^ 16 := by omega
  have htotal : ipv4HdrSize + (udpSegment srcIp dstIp srcPort dstPort payload).length < 2 ^ 16 := by
    rw [length_udpSegment]
    exact hlen
  refine ⟨sent_ipv4_accepted htotal (by simp) hlocal, rfl, ?_, ?_, Or.inr ?_⟩
  · rw [udpLenField_sent hsmall]
    exact Nat.le_add_right _ _
  · rw [udpLenField_sent hsmall, headerLen_sent, be16At_total htotal, length_udpSegment]
  · rw [udpOff_sent, udpLenField_sent hsmall, segment_sent, ipAt_src_sent, ipAt_dst_sent]
    exact udpChecksum_udpSegment srcIp dstIp srcPort dstPort hsmall

end Datagram

/-! ## The queue -/

/-- `queue[slot]` holds the datagram `d`. -/
structure Stored (m : ServerMem) (slot : ℕ) (d : Datagram) : Prop where
  len : load 2 m (slotOff slot) = d.payload.length
  srcIp : slice m (slotOff slot + 2) 4 = d.srcIp.bytes
  srcPort : load 2 m (slotOff slot + 6) = d.srcPort
  payload : slice m (slotOff slot + 8) d.payload.length = d.payload

theorem ServerMem.nextSlot_lt (m : ServerMem) : m.nextSlot < udpMaxQueue :=
  Nat.mod_lt _ (by decide)

theorem slotOff_add_le {slot : ℕ} (h : slot < udpMaxQueue) : slotOff slot + dgramSize ≤ headOff := by
  simp only [slotOff, headOff, udpMaxQueue, dgramSize, udpMaxDgram] at *
  omega

/-- `udp_server_enqueue` writes the slot's header, as many bytes as the payload
    has behind it, and `count`. -/
theorem udpServerEnqueue_of_outside (m : ServerMem) (d : Datagram) {x : ℕ} (hx : x ≠ countOff)
    (hout : x < slotOff m.nextSlot ∨ slotOff m.nextSlot + 8 + d.payload.length ≤ x) :
    udpServerEnqueue m d x = m x := by
  unfold udpServerEnqueue
  split_ifs
  · rfl
  · dsimp only
    have h4 : d.srcIp.bytes.length = 4 := rfl
    rw [store_of_outside _ (by simp only [List.length_singleton]; omega),
      store_of_outside _ (by omega), storeWord_of_outside _ _ (by omega),
      store_of_outside _ (by omega), storeWord_of_outside _ _ (by omega)]

/-- A datagram that fits the slot is stored in the next slot, `count` goes up by
    one, and nothing else changes. -/
theorem udpServerEnqueue_spec (m : ServerMem) (d : Datagram) (hroom : m.count < udpMaxQueue)
    (hlen : d.payload.length ≤ udpMaxDgram) (hport : d.srcPort < 2 ^ 16) :
    Stored (udpServerEnqueue m d) m.nextSlot d ∧
      (udpServerEnqueue m d).count = m.count + 1 ∧
      ∀ x, x ≠ countOff → (x < slotOff m.nextSlot ∨ slotOff m.nextSlot + dgramSize ≤ x) →
        udpServerEnqueue m d x = m x := by
  have hslot := slotOff_add_le m.nextSlot_lt
  have h4 : d.srcIp.bytes.length = 4 := rfl
  have hoff : countOff = 2 + 16 * 1480 + 1 := rfl
  have hnot : ¬ m.count ≥ udpMaxQueue := by omega
  simp only [dgramSize, udpMaxDgram, headOff, udpMaxQueue] at hslot hlen
  refine ⟨?_, ?_, fun x hx hout => udpServerEnqueue_of_outside m d hx
    (by simp only [dgramSize, udpMaxDgram] at hout; omega)⟩
  · -- each field is read back through the stores that follow it
    rw [udpServerEnqueue, if_neg hnot]
    refine ⟨?_, ?_, ?_, ?_⟩
    · rw [load_store_of_disjoint _ (by omega), load_store_of_disjoint _ (by omega),
        load_storeWord_of_disjoint _ _ (by omega), load_store_of_disjoint _ (by omega),
        load_storeWord, Nat.mod_eq_of_lt (by omega)]
    · rw [slice_store_of_disjoint _ (by omega), slice_store_of_disjoint _ (by omega),
        storeWord, slice_store_of_disjoint _ (by simp), ← h4, slice_store]
    · rw [load_store_of_disjoint _ (by omega), load_store_of_disjoint _ (by omega),
        load_storeWord, Nat.mod_eq_of_lt (by omega)]
    · rw [slice_store_of_disjoint _ (by omega), slice_store]
  · have hlast : ∀ (f : ServerMem) (b : UInt8), store f countOff [b] countOff = b := fun f b =>
      store_apply f countOff (show 0 < [b].length by simp)
    have hcount : m.count = (m countOff).toNat := rfl
    rw [ServerMem.count, udpServerEnqueue, if_neg hnot, hlast, store_of_outside _ (by omega),
      storeWord_of_outside _ _ (by omega), store_of_outside _ (by omega),
      storeWord_of_outside _ _ (by omega), UInt8.toNat_add, hcount]
    simp only [udpMaxQueue] at hroom
    exact Nat.mod_eq_of_lt (by rw [UInt8.toNat_one]; omega)

/-! ## Main theorem -/

/-- An accepted frame for a server with room is queued there. -/
theorem receiveFrame_of_accepted {receiver : Host} {servers : Servers} {frame : List UInt8}
    {i : Fin udpMaxServers} {m : ServerMem} (h : AcceptsUdp receiver frame)
    (hserver : udpFindServer servers (carried frame).dstPort = some i) (hm : servers i = some m) :
    receiveFrame receiver servers frame =
      some (Function.update servers i (some (udpServerEnqueue m (carried frame)))) := by
  obtain ⟨r, hr, hudp, -⟩ := ethProcessPacket_spec receiver frame
  rw [receiveFrame, hr, hudp h, Option.map_some, deliver, hserver]
  simp only [hm, Option.map_some]

theorem udpSend_eq {sender sender' : Host} {srcIp dstIp : Ip} {nextHopMac : Option Mac}
    {srcPort dstPort : UInt16} {payload frame : List UInt8}
    (h : udpSend sender srcIp dstIp nextHopMac srcPort dstPort payload = some (frame, sender')) :
    ∃ mac padding, frame = sentFrame sender srcIp dstIp mac sender.identification.toNat srcPort
      dstPort payload padding := by
  obtain ⟨mac, -, hrest⟩ := Option.bind_eq_some_iff.mp h
  split_ifs at hrest
  cases hrest
  obtain ⟨padding, hpad⟩ := ipv4SendPacket_eq sender srcIp dstIp mac
    sender.identification.toNat (udpSegment srcIp dstIp srcPort dstPort payload)
  exact ⟨mac, padding, hpad⟩

/-- **UDP wire round trip.** For all addresses, hardware addresses, ports,
    identifications and payloads of up to 1472 bytes, the frame that `udp_send`
    hands to `e1k_send` has a non-zero checksum field, and on a host with the
    destination address and a server on the destination port with room in its
    queue it stores exactly one datagram: the one sent, in the next free slot of
    that server. Nothing else in the servers changes but the server's `count`. -/
theorem udp_round_trip {sender sender' receiver : Host} {srcIp dstIp : Ip}
    {nextHopMac : Option Mac} {srcPort dstPort : UInt16} {payload frame : List UInt8}
    {servers : Servers} {i : Fin udpMaxServers} {m : ServerMem}
    (hlen : payload.length ≤ udpMaxDgram)
    (hsend : udpSend sender srcIp dstIp nextHopMac srcPort dstPort payload =
      some (frame, sender'))
    (hlocal : receiver.localIp = some dstIp)
    (hserver : udpFindServer servers dstPort.toNat = some i) (hm : servers i = some m)
    (hroom : m.count < udpMaxQueue) :
    be16At frame 40 ≠ 0 ∧
    ∃ m', receiveFrame receiver servers frame = some (Function.update servers i (some m')) ∧
      Stored m' m.nextSlot ⟨srcIp, srcPort.toNat, dstIp, dstPort.toNat, payload⟩ ∧
      m'.count = m.count + 1 ∧
      ∀ x, x ≠ countOff → (x < slotOff m.nextSlot ∨ slotOff m.nextSlot + dgramSize ≤ x) →
        m' x = m x := by
  obtain ⟨mac, padding, rfl⟩ := udpSend_eq hsend
  have hfits : ipv4HdrSize + (udpHdrSize + payload.length) < 2 ^ 16 := by
    simp only [ipv4HdrSize, udpHdrSize, udpMaxDgram] at hlen ⊢
    omega
  have hcarried : carried (sentFrame sender srcIp dstIp mac sender.identification.toNat srcPort
      dstPort payload padding) = ⟨srcIp, srcPort.toNat, dstIp, dstPort.toNat, payload⟩ :=
    carried_sent_frame (by omega)
  refine ⟨?_, udpServerEnqueue m ⟨srcIp, srcPort.toNat, dstIp, dstPort.toNat, payload⟩, ?_, ?_⟩
  · rw [checksumField_sent]
    exact sentChecksum_ne_zero srcIp dstIp srcPort dstPort payload
  · rw [← hcarried]
    exact receiveFrame_of_accepted (sent_frame_accepted hfits hlocal)
      (by rw [hcarried]; exact hserver) hm
  · exact udpServerEnqueue_spec m _ hroom hlen srcPort.toNat_lt

/-- A host on `10.0.0.0/24`. -/
def exampleHost : Host where
  mac := ⟨2, 0, 0, 0, 0, 1⟩
  localIp := some ⟨10, 0, 0, 2⟩
  netmask := ⟨255, 255, 255, 0⟩
  gateway := none
  arpResolve := fun _ => some ⟨2, 0, 0, 0, 0, 1⟩
  identification := 1

/-- One server, bound to port 7, with an empty queue. -/
def exampleServers : Servers := fun i =>
  if i = 0 then some fun x => if x = 0 then 7 else 0 else none

/-- A three-byte datagram sent to the host itself. -/
theorem udp_round_trip_hello :
    ∃ frame host' m',
      udpSend exampleHost ⟨10, 0, 0, 2⟩ ⟨10, 0, 0, 2⟩ none 4000 7 [104, 105, 33] =
        some (frame, host') ∧
      receiveFrame exampleHost exampleServers frame =
        some (Function.update exampleServers 0 (some m')) ∧
      m'.count = 1 := by
  have hserver : udpFindServer exampleServers (7 : UInt16).toNat = some 0 := by decide
  have hm : exampleServers 0 = some fun x => if x = 0 then 7 else 0 := rfl
  have hlen : ([104, 105, 33] : List UInt8).length ≤ udpMaxDgram := by decide
  have hlocal : exampleHost.localIp = some ⟨10, 0, 0, 2⟩ := rfl
  obtain ⟨sent, hsend⟩ : ∃ sent, udpSend exampleHost ⟨10, 0, 0, 2⟩ ⟨10, 0, 0, 2⟩ none 4000 7
      [104, 105, 33] = some sent := ⟨_, rfl⟩
  obtain ⟨-, m', hr, -, hcount, -⟩ :=
    udp_round_trip hlen hsend hlocal hserver hm (by decide)
  exact ⟨_, _, m', hsend, hr, hcount⟩

end Mboot.Net
