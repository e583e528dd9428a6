import Mboot.Net.RoundTrip

/-!
# What the checksums detect

The one's-complement sums of the IPv4 header and of the UDP segment verify exactly
when they are positive multiples of `0xFFFF`. Changing one byte moves the sum by a
multiple of its weight (`wordSum_set`), and both results follow from that.

* `flipped_bit_dropped`: a segment from `udp_send` with one bit of its ports or its
  payload flipped is dropped.
* `ipv4_header_test_iff`: clearing the checksum field of an IPv4 header, computing the
  checksum again and comparing accepts the headers whose sum verifies as received,
  except those with `0xFFFF` in the field.
-/

namespace Mboot.Net

open Common

/-! ## Sums of words -/

/-- What the byte at offset `j` counts in the sum of the words. -/
def byteWeight (j : ℕ) : ℕ := if j % 2 = 0 then 256 else 1

theorem byteWeight_zero : byteWeight 0 = 256 := rfl

theorem byteWeight_one : byteWeight 1 = 1 := rfl

theorem byteWeight_add_two (j : ℕ) : byteWeight (j + 2) = byteWeight j := by
  unfold byteWeight
  rw [Nat.add_mod_right]

/-- Replacing a byte replaces its contribution to the sum. -/
theorem wordSum_set (bytes : List UInt8) {j : ℕ} (hj : j < bytes.length) (x : UInt8) :
    wordSum (bytes.set j x) + byteWeight j * (byteAt bytes j).toNat =
      wordSum bytes + byteWeight j * x.toNat := by
  induction bytes using wordSum.induct generalizing j with
  | case1 => simp at hj
  | case2 b =>
    obtain rfl : j = 0 := by simpa using hj
    simp only [List.set_cons_zero, wordSum, byteWeight_zero, byteAt, List.getD_cons_zero]
    omega
  | case3 b c bytes ih =>
    rcases j with _ | _ | j
    · simp only [List.set_cons_zero, wordSum, byteWeight_zero, byteAt, List.getD_cons_zero]
      omega
    · simp only [List.set_cons_succ, List.set_cons_zero, wordSum, Nat.zero_add, byteWeight_one,
        byteAt, List.getD_cons_succ, List.getD_cons_zero]
      omega
    · have hrest := ih (show j < bytes.length by simpa using hj)
      have hbyte : byteAt (b :: c :: bytes) (j + 2) = byteAt bytes j := rfl
      rw [List.set_cons_succ, List.set_cons_succ, wordSum, wordSum, byteWeight_add_two, hbyte]
      omega

theorem byteAt_set_of_ne {bytes : List UInt8} {i j : ℕ} (h : j ≠ i) (x : UInt8) :
    byteAt (bytes.set j x) i = byteAt bytes i := by
  unfold byteAt
  rw [List.getD_eq_getElem?_getD, List.getElem?_set_ne h, ← List.getD_eq_getElem?_getD]

/-- Storing a field replaces its value in the sum. -/
theorem wordSum_writeBe16 {bytes : List UInt8} {i x : ℕ} (heven : i % 2 = 0)
    (hi : i + 2 ≤ bytes.length) (hx : x < 2 ^ 16) :
    wordSum (writeBe16 bytes i x) + be16At bytes i = wordSum bytes + x := by
  have hhi := wordSum_set bytes (show i < bytes.length by omega) (UInt8.ofNat (x / 256))
  have hlo := wordSum_set (bytes.set i (UInt8.ofNat (x / 256)))
    (show i + 1 < (bytes.set i (UInt8.ofNat (x / 256))).length by simp; omega) (UInt8.ofNat x)
  rw [byteAt_set_of_ne (by omega)] at hlo
  have hw0 : byteWeight i = 256 := if_pos heven
  have hw1 : byteWeight (i + 1) = 1 := if_neg (by omega)
  have hval := be16_value hx
  rw [hw0] at hhi
  rw [hw1] at hlo
  unfold writeBe16 be16At
  omega

theorem wordSum_pos {bytes : List UInt8} (h : byteAt bytes 0 ≠ 0) : 0 < wordSum bytes := by
  have hpos : 0 < (byteAt bytes 0).toNat := by
    rw [Nat.pos_iff_ne_zero]
    intro h0
    exact h (UInt8.toNat_inj.mp h0)
  match bytes with
  | [] => exact absurd rfl h
  | [b] =>
    have hb : byteAt [b] 0 = b := rfl
    rw [hb] at hpos
    rw [wordSum]
    omega
  | b :: c :: rest =>
    have hb : byteAt (b :: c :: rest) 0 = b := rfl
    rw [hb] at hpos
    rw [wordSum]
    omega

/-- A complemented fold is zero exactly for the positive multiples of `0xFFFF`. -/
theorem complement_fold_eq_zero_iff (s : ℕ) :
    0xFFFF - foldCarry (2 ^ 16) s = 0 ↔ 0 < s ∧ 0xFFFF ∣ s := by
  have hones : foldCarry (2 ^ 16) s = 0xFFFF ↔ 0 < s ∧ 0xFFFF ∣ s :=
    foldCarry_eq_ones_iff (by decide)
  rw [← hones]
  have hle := foldCarry_le s
  omega

/-! ## A flipped bit -/

/-- Bit `k` of byte `j` flipped. -/
def flipBit (bytes : List UInt8) (j k : ℕ) : List UInt8 :=
  bytes.set j (byteAt bytes j ^^^ UInt8.ofNat (2 ^ k))

@[simp] theorem length_flipBit (bytes : List UInt8) (j k : ℕ) :
    (flipBit bytes j k).length = bytes.length := List.length_set

theorem xor_two_pow_lt_256 : ∀ n : Fin 256, ∀ k : Fin 8,
    n.val ^^^ 2 ^ k.val = n.val + 2 ^ k.val ∨ (n.val ^^^ 2 ^ k.val) + 2 ^ k.val = n.val := by
  decide +kernel

theorem toNat_flip (b : UInt8) {k : ℕ} (hk : k < 8) :
    (b ^^^ UInt8.ofNat (2 ^ k)).toNat = b.toNat + 2 ^ k ∨
      (b ^^^ UInt8.ofNat (2 ^ k)).toNat + 2 ^ k = b.toNat := by
  have hpow : 2 ^ k < 2 ^ 8 := Nat.pow_lt_pow_right (by norm_num) hk
  rw [UInt8.toNat_xor, UInt8.toNat_ofNat', Nat.mod_eq_of_lt hpow]
  exact xor_two_pow_lt_256 ⟨b.toNat, b.toNat_lt⟩ ⟨k, hk⟩

/-- A flipped bit moves the sum by its own weight, which is no multiple of `0xFFFF`. -/
theorem wordSum_flipBit (bytes : List UInt8) {j k : ℕ} (hj : j < bytes.length) (hk : k < 8) :
    ∃ d, 0 < d ∧ d < 0xFFFF ∧
      (wordSum (flipBit bytes j k) = wordSum bytes + d ∨
        wordSum (flipBit bytes j k) + d = wordSum bytes) := by
  have hset := wordSum_set bytes hj (byteAt bytes j ^^^ UInt8.ofNat (2 ^ k))
  have hpos : 0 < 2 ^ k := Nat.two_pow_pos k
  have hpow : 2 ^ k ≤ 2 ^ 7 := Nat.pow_le_pow_right (by norm_num) (by omega)
  refine ⟨byteWeight j * 2 ^ k, ?_, ?_, ?_⟩
  · unfold byteWeight
    split_ifs <;> omega
  · unfold byteWeight
    split_ifs <;> omega
  · unfold flipBit
    rcases toNat_flip (byteAt bytes j) hk with hup | hdown
    · left
      rw [hup, Nat.mul_add] at hset
      omega
    · right
      rw [← hdown, Nat.mul_add] at hset
      omega

/-- A sum that verifies does not do so any more after one bit of the segment is flipped. -/
theorem udpChecksum_flipBit {srcIp dstIp : Ip} {segment : List UInt8} {j k : ℕ}
    (hj : j < segment.length) (hk : k < 8) (h : udpChecksum srcIp dstIp segment = 0) :
    udpChecksum srcIp dstIp (flipBit segment j k) ≠ 0 := by
  obtain ⟨d, hpos, hlt, hsum⟩ := wordSum_flipBit segment hj hk
  unfold udpChecksum at h ⊢
  rw [complement_fold_eq_zero_iff] at h
  rw [ne_eq, complement_fold_eq_zero_iff, length_flipBit]
  rintro ⟨-, hdvd⟩
  generalize pseudoSum srcIp dstIp segment.length = p at h hdvd
  have h0 := h.2
  omega

section Segment

variable {srcIp dstIp : Ip} {srcPort dstPort : UInt16} {payload : List UInt8}

/-- The length and the checksum field of a segment from `udp_send`. -/
theorem udpSegment_fields (hlen : udpHdrSize + payload.length < 2 ^ 16) :
    be16At (udpSegment srcIp dstIp srcPort dstPort payload) 4 = udpHdrSize + payload.length ∧
      be16At (udpSegment srcIp dstIp srcPort dstPort payload) 6 =
        sentChecksum srcIp dstIp srcPort dstPort payload :=
  ⟨be16_value hlen, be16_value (sentChecksum_lt srcIp dstIp srcPort dstPort payload)⟩

/-- A field apart from the flipped byte. -/
theorem be16At_flipBit {bytes : List UInt8} {i j k : ℕ} (h0 : j ≠ i) (h1 : j ≠ i + 1) :
    be16At (flipBit bytes j k) i = be16At bytes i := by
  unfold be16At flipBit
  rw [byteAt_set_of_ne h0, byteAt_set_of_ne h1]

/-- A field of the frame, read in a part of it. -/
theorem be16At_of_bytesAt {frame part : List UInt8} {a n i : ℕ}
    (h : bytesAt frame a n = some part) (hi : i + 2 ≤ n) :
    a + n ≤ frame.length ∧ be16At frame (a + i) = be16At part i := by
  unfold bytesAt at h
  split_ifs at h with hfits
  obtain rfl := Option.some.inj h
  have hbyte : ∀ m, m < n → byteAt ((frame.drop a).take n) m = byteAt frame (a + m) := by
    intro m hm
    unfold byteAt
    rw [List.getD_eq_getElem?_getD, List.getElem?_take_of_lt hm, List.getElem?_drop,
      ← List.getD_eq_getElem?_getD]
  unfold be16At
  rw [hbyte i (by omega), hbyte (i + 1) (by omega), Nat.add_assoc]
  exact ⟨hfits, rfl⟩

/-- `udp_process_packet` drops a segment of `udp_send` with one bit flipped in its ports
    or in its payload, wherever it stands in a frame and whatever length is announced
    for it. -/
theorem flipped_bit_dropped (hlen : payload.length ≤ udpMaxDgram) {j k : ℕ}
    (hj : j < 4 ∨ udpHdrSize ≤ j ∧ j < udpHdrSize + payload.length) (hk : k < 8)
    {frame : List UInt8} {ipv4 udpData udpLen : ℕ}
    (hsrc : readIp frame (ipv4 + 12) = some srcIp) (hdst : readIp frame (ipv4 + 16) = some dstIp)
    (hseg : bytesAt frame udpData (udpHdrSize + payload.length) =
      some (flipBit (udpSegment srcIp dstIp srcPort dstPort payload) j k)) :
    udpProcessPacket frame ipv4 udpData udpLen = some (frame, .dropped) := by
  have hsmall : udpHdrSize + payload.length < 2 ^ 16 := by
    simp only [udpHdrSize, udpMaxDgram] at hlen ⊢
    omega
  have hjlen : j < (udpSegment srcIp dstIp srcPort dstPort payload).length := by
    rw [length_udpSegment]
    simp only [udpHdrSize] at hj ⊢
    omega
  -- neither the length nor the checksum field has been touched
  have hfield : ∀ i, i = 4 ∨ i = 6 → be16At frame (udpData + i) =
      be16At (udpSegment srcIp dstIp srcPort dstPort payload) i := by
    intro i hi
    simp only [udpHdrSize] at hj
    rw [(be16At_of_bytesAt hseg (by simp only [udpHdrSize]; omega)).2,
      be16At_flipBit (by omega) (by omega)]
  obtain ⟨hlenField, hckField⟩ := udpSegment_fields hsmall
  have hfits := (be16At_of_bytesAt (i := 0) hseg (by simp only [udpHdrSize]; omega)).1
  simp only [udpHdrSize] at hfits
  have hne : be16At frame (udpData + 6) ≠ 0 := by
    rw [hfield 6 (.inr rfl), hckField]
    exact sentChecksum_ne_zero srcIp dstIp srcPort dstPort payload
  have hbad := udpChecksum_flipBit hjlen hk
    (udpChecksum_udpSegment srcIp dstIp srcPort dstPort hsmall)
  unfold udpProcessPacket
  by_cases hrunt : udpLen < udpHdrSize
  · rw [if_pos hrunt]
  rw [if_neg hrunt, readBe16_eq (by omega), readBe16_eq (by omega), readBe16_eq (by omega), hsrc,
    hdst, readBe16_eq (by omega), hfield 4 (.inl rfl), hlenField]
  simp only [Option.bind_eq_bind, Option.bind_some, Option.pure_def, if_pos hne,
    writeBe16_restore, hseg]
  split_ifs with hmal hck
  · rfl
  · rfl
  · exact absurd ⟨hne, hbad⟩ hck

end Segment

/-- A segment of eleven bytes with bit 0 of its first payload byte flipped, behind an IPv4
    header in which only the addresses are set. -/
def flippedFrame : List UInt8 :=
  List.replicate 12 0 ++ [10, 0, 0, 9] ++ [10, 0, 0, 2] ++
    flipBit (udpSegment ⟨10, 0, 0, 9⟩ ⟨10, 0, 0, 2⟩ 4000 7 [104, 105, 33]) 8 0

theorem flipped_bit_dropped_hello :
    udpProcessPacket flippedFrame 0 20 11 = some (flippedFrame, .dropped) := by
  have hsrc : readIp flippedFrame (0 + 12) = some ⟨10, 0, 0, 9⟩ := rfl
  have hdst : readIp flippedFrame (0 + 16) = some ⟨10, 0, 0, 2⟩ := rfl
  have hseg : bytesAt flippedFrame 20 (udpHdrSize + ([104, 105, 33] : List UInt8).length) =
      some (flipBit (udpSegment ⟨10, 0, 0, 9⟩ ⟨10, 0, 0, 2⟩ 4000 7 [104, 105, 33]) 8 0) := by
    decide +kernel
  exact flipped_bit_dropped (by decide) (by decide) (by decide) hsrc hdst hseg

/-! ## The IPv4 header -/

/-- The test of `ipv4_process_packet` (lines 161–168) on a header: the checksum over the
    header with a cleared field is the one in the field. -/
def ipv4HeaderOk (header : List UInt8) : Prop :=
  be16At header 10 = ipv4Checksum (writeBe16 header 10 0)

instance (header : List UInt8) : Decidable (ipv4HeaderOk header) :=
  inferInstanceAs (Decidable (_ = _))

/-- What `ipv4_process_packet` does behind the test (lines 173–206). -/
def ipv4Dispatch (host : Host) (frame : List UInt8) (data ihl totalLength : ℕ) :
    Option (List UInt8 × Rx) := do
  let fragmentField ← readBe16 frame (data + 6)
  if fragmentField &&& 0x3FFF ≠ 0 ∨ fragmentField &&& 0x2000 ≠ 0 then return (frame, .dropped)
  let dstIp ← readIp frame (data + 16)
  if ipv4NotForUs host dstIp then return (frame, .dropped)
  let protocol ← frame[data + 9]?
  if protocol = ipv4ProtocolIcmp then return (frame, .icmp data (data + ihl) (totalLength - ihl))
  else if protocol = ipv4ProtocolUdp then
    udpProcessPacket frame data (data + ihl) (totalLength - ihl)
  else return (frame, .dropped)

/-- The header length of the packet at `data`. -/
def ihlAt (frame : List UInt8) (data : ℕ) : ℕ := (byteAt frame data &&& 0x0F).toNat * 4

/-- The header of the packet at `data`. -/
def headerAt (frame : List UInt8) (data : ℕ) : List UInt8 :=
  (frame.drop data).take (ihlAt frame data)

theorem be16At_drop_take {frame : List UInt8} {a n i : ℕ} (hi : i + 2 ≤ n)
    (hn : a + n ≤ frame.length) : be16At ((frame.drop a).take n) i = be16At frame (a + i) :=
  (be16At_of_bytesAt (bytesAt_eq hn) hi).2.symm

theorem writeBe16_drop_take (frame : List UInt8) (a n i x : ℕ) :
    ((writeBe16 frame (a + i) x).drop a).take n = writeBe16 ((frame.drop a).take n) i x := by
  unfold writeBe16
  rw [Nat.add_assoc, List.drop_set, List.drop_set, if_neg (by omega), if_neg (by omega),
    Nat.add_sub_cancel_left, Nat.add_sub_cancel_left, List.take_set, List.take_set]

/-- A packet of version 4 whose lengths fit goes on behind the test if its header passes,
    and is dropped otherwise. -/
theorem ipv4ProcessPacket_header (host : Host) {frame : List UInt8} {data len : ℕ}
    (hlen : data + len ≤ frame.length) (hver : byteAt frame data >>> 4 = 4)
    (hihl : ipv4HdrSize ≤ ihlAt frame data) (htotal : ihlAt frame data ≤ be16At frame (data + 2))
    (hfits : be16At frame (data + 2) ≤ len) :
    ipv4ProcessPacket host frame data len =
      if ipv4HeaderOk (headerAt frame data) then
        ipv4Dispatch host frame data (ihlAt frame data) (be16At frame (data + 2))
      else some (frame, .dropped) := by
  have hihlAt : (byteAt frame data &&& 0x0F).toNat * 4 = ihlAt frame data := rfl
  simp only [ipv4HdrSize] at hihl
  have hok : ipv4HeaderOk (headerAt frame data) ↔ be16At frame (data + 10) =
      ipv4Checksum (((writeBe16 frame (data + 10) 0).drop data).take (ihlAt frame data)) := by
    unfold ipv4HeaderOk headerAt
    rw [be16At_drop_take (i := 10) (by omega) (by omega), writeBe16_drop_take]
  have hlengths : ¬ (byteAt frame data >>> 4 ≠ 4 ∨ ihlAt frame data < 20 ∨
      len < ihlAt frame data ∨ be16At frame (data + 2) < ihlAt frame data ∨
      be16At frame (data + 2) > len) := by
    push Not
    exact ⟨hver, hihl, by omega, htotal, hfits⟩
  unfold ipv4ProcessPacket
  rw [if_neg (by simp only [ipv4HdrSize]; omega), getElem?_eq_byteAt (by omega),
    readBe16_eq (by omega)]
  simp only [Option.bind_eq_bind, Option.bind_some, Option.pure_def, hihlAt]
  rw [if_neg hlengths, readBe16_eq (by omega), Option.bind_some,
    bytesAt_eq (by rw [length_writeBe16]; omega), Option.bind_some, writeBe16_restore]
  by_cases htest : ipv4HeaderOk (headerAt frame data)
  · rw [if_pos htest, if_neg (not_not.mpr (hok.mp htest))]
    rfl
  · rw [if_neg htest, if_pos (fun h => htest (hok.mpr h))]

/-- For every header of version 4 the test passes if and only if the sum over the header
    as received verifies and the field is not `0xFFFF`; the headers that
    `ipv4_send_packet` builds pass. -/
theorem ipv4_header_test_iff :
    (∀ header : List UInt8, ipv4HdrSize ≤ header.length → byteAt header 0 >>> 4 = 4 →
      (ipv4HeaderOk header ↔ ipv4Checksum header = 0 ∧ be16At header 10 ≠ 0xFFFF)) ∧
    ∀ totalLength identification protocol srcIp dstIp,
      ipv4HeaderOk (ipv4Header totalLength identification
        (ipv4Checksum (ipv4Header totalLength identification 0 protocol srcIp dstIp))
        protocol srcIp dstIp) := by
  constructor
  · intro header hlen hver
    have hsum := wordSum_writeBe16 (x := 0) (show 10 % 2 = 0 by rfl)
      (show 10 + 2 ≤ header.length by simp only [ipv4HdrSize] at hlen; omega) (by norm_num)
    have hfirst : byteAt (writeBe16 header 10 0) 0 = byteAt header 0 := by
      rw [writeBe16, byteAt_set_of_ne (by omega), byteAt_set_of_ne (by omega)]
    have hpos : 0 < wordSum (writeBe16 header 10 0) := by
      apply wordSum_pos
      rw [hfirst]
      rintro h0
      rw [h0] at hver
      exact absurd hver (by decide)
    have hfield := be16At_lt header 10
    have hfold : foldCarry (2 ^ 16) (wordSum (writeBe16 header 10 0)) =
        (wordSum (writeBe16 header 10 0) - 1) % 0xFFFF + 1 := by
      rw [foldCarry_eq (by decide)]
      exact if_neg (by omega)
    unfold ipv4HeaderOk ipv4Checksum
    rw [complement_fold_eq_zero_iff, hfold]
    -- both sides say that the field is the residue in `0 … 0xFFFE` that completes the sum
    omega
  · intro totalLength identification protocol srcIp dstIp
    exact be16_value (ipv4Checksum_lt _)

/-- A header of 24 bytes with its checksum. -/
def headerWithOptions : List UInt8 :=
  [0x46, 0, 0, 24, 0, 1, 0, 0, 64, 17, 0x63, 0xc9, 10, 0, 0, 9, 10, 0, 0, 2, 1, 1, 1, 0]

theorem ipv4_header_test_with_options : ipv4HeaderOk headerWithOptions :=
  (ipv4_header_test_iff.1 headerWithOptions (by decide) (by decide)).mpr (by decide +kernel)

end Mboot.Net
