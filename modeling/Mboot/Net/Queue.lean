import Mboot.Net.RoundTrip

/-!
# Queued datagrams and their slots

`udp_server_enqueue` copies as many payload bytes as the UDP length field
announces into a slot of `UDP_MAX_DGRAM` bytes. The receive path bounds that
length only by the frame, and a receive buffer of `RX_BUF_SIZE` bytes holds a
payload of up to 2006 bytes.

* `queued_copy_fits_iff`: the copy stays in its slot exactly when the length
  field of a frame that is queued is at most `8 + UDP_MAX_DGRAM`.
* `oversized_datagram_overruns_server`: a frame of `RX_BUF_SIZE` bytes rewrites
  `head` and `count` and memory behind the server object.
-/

namespace Mboot.Net

open Common

/-- `RX_BUF_SIZE` (dev/e1k.c). -/
abbrev rxBufSize : ℕ := 2048

/-- Handling `frame` stores `d` in the queue of server `i`, whose memory was `m`. -/
structure Enqueues (host : Host) (servers : Servers) (frame : List UInt8)
    (i : Fin udpMaxServers) (m : ServerMem) (d : Datagram) : Prop where
  delivered : ∃ frame', ethProcessPacket host frame = some (frame', .udp d)
  server : udpFindServer servers d.dstPort = some i
  mem : servers i = some m
  room : m.count < udpMaxQueue

/-- Every datagram that handling `frame` stores has at most `UDP_MAX_DGRAM`
    bytes, and storing it changes nothing but its slot and the increment of
    `count`. -/
def QueuedCopyFits (host : Host) (servers : Servers) (frame : List UInt8) : Prop :=
  ∀ i m d, Enqueues host servers frame i m d →
    d.payload.length ≤ udpMaxDgram ∧
    (udpServerEnqueue m d).count = m.count + 1 ∧
    ∀ x, x ≠ countOff → (x < slotOff m.nextSlot ∨ slotOff m.nextSlot + dgramSize ≤ x) →
      udpServerEnqueue m d x = m x

/-- The frame is accepted, and there is room at the server bound to its
    destination port. -/
def QueuedBy (host : Host) (servers : Servers) (frame : List UInt8) : Prop :=
  AcceptsUdp host frame ∧
  ∃ i m, udpFindServer servers (be16At frame (udpOff frame + 2)) = some i ∧ servers i = some m ∧
    m.count < udpMaxQueue

theorem Enqueues.accepted {host : Host} {servers : Servers} {frame : List UInt8}
    {i : Fin udpMaxServers} {m : ServerMem} {d : Datagram}
    (h : Enqueues host servers frame i m d) : AcceptsUdp host frame ∧ d = carried frame := by
  obtain ⟨frame', hd⟩ := h.delivered
  obtain ⟨r, hr, hyes, hno⟩ := ethProcessPacket_spec host frame
  rw [hr] at hd
  cases hd
  by_cases hacc : AcceptsUdp host frame
  · exact ⟨hacc, Rx.udp.inj (hyes hacc)⟩
  · exact absurd rfl (hno hacc d)

theorem QueuedBy.enqueues {host : Host} {servers : Servers} {frame : List UInt8}
    (h : QueuedBy host servers frame) :
    ∃ i m, Enqueues host servers frame i m (carried frame) := by
  obtain ⟨hacc, i, m, hserver, hm, hroom⟩ := h
  obtain ⟨r, hr, hyes, -⟩ := ethProcessPacket_spec host frame
  rw [hyes hacc] at hr
  exact ⟨i, m, ⟨frame, hr⟩, hserver, hm, hroom⟩

/-- **When queued datagrams fit their slot.** For every frame and every state of
    the servers, the copy of a queued datagram stays in its slot exactly when
    the frame is not queued or its UDP length field is at most
    `8 + UDP_MAX_DGRAM`. -/
theorem queued_copy_fits_iff (host : Host) (servers : Servers) (frame : List UInt8) :
    QueuedCopyFits host servers frame ↔
      (QueuedBy host servers frame → udpLenField frame ≤ udpHdrSize + udpMaxDgram) := by
  constructor
  · intro hfits hq
    obtain ⟨i, m, henq⟩ := hq.enqueues
    have hlen := (hfits i m _ henq).1
    rw [length_carried hq.1] at hlen
    omega
  · intro hcond i m d henq
    obtain ⟨hacc, rfl⟩ := henq.accepted
    have hfield := hcond ⟨hacc, i, m, henq.server, henq.mem, henq.room⟩
    have hlen : (carried frame).payload.length ≤ udpMaxDgram := by
      rw [length_carried hacc]
      omega
    obtain ⟨-, hcount, hrest⟩ :=
      udpServerEnqueue_spec m (carried frame) henq.room hlen (be16At_lt frame _)
    exact ⟨hlen, hcount, hrest⟩

/-! ## A frame that overruns the server -/

/-- The largest payload that fits a receive buffer. -/
def overrunPayload : List UInt8 := List.replicate 2006 0xAB

/-- A frame of `RX_BUF_SIZE` bytes for port 7 of the example host. -/
def overrunFrame : List UInt8 :=
  sentFrame exampleHost ⟨10, 0, 0, 9⟩ ⟨10, 0, 0, 2⟩ ⟨2, 0, 0, 0, 0, 1⟩ 1 4000 7 overrunPayload []

/-- The datagram in `overrunFrame`. -/
def overrunDatagram : Datagram :=
  ⟨⟨10, 0, 0, 9⟩, (4000 : UInt16).toNat, ⟨10, 0, 0, 2⟩, (7 : UInt16).toNat, overrunPayload⟩

/-- A server on port 7 whose queue is empty, after 15 datagrams have passed
    through it. -/
def wrappedServer : ServerMem := fun x => if x = 0 then 7 else if x = headOff then 15 else 0

def wrappedServers : Servers := fun i => if i = 0 then some wrappedServer else none

/-- The frame has the size of a receive buffer. It is queued with 2006 bytes in
    a slot of 1472; `head`, `count` and the byte behind the server object are
    overwritten with payload. -/
theorem oversized_datagram_overruns_server :
    overrunFrame.length ≤ rxBufSize ∧
    ∃ m', receiveFrame exampleHost wrappedServers overrunFrame =
        some (Function.update wrappedServers 0 (some m')) ∧
      udpMaxDgram < overrunPayload.length ∧
      wrappedServer.head = 15 ∧ m'.head = 0xAB ∧
      wrappedServer.count = 0 ∧ m'.count = 0xAC ∧
      wrappedServer serverSize = 0 ∧ m' serverSize = 0xAB := by
  have hpl : overrunPayload.length = 2006 := List.length_replicate
  have hlen : ipv4HdrSize + (udpHdrSize + overrunPayload.length) < 2 ^ 16 := by
    rw [hpl]
    decide
  have hcarried : carried overrunFrame = overrunDatagram := carried_sent_frame (by omega)
  have hserver : udpFindServer wrappedServers (carried overrunFrame).dstPort = some 0 := by
    rw [hcarried]
    decide
  have hacc : AcceptsUdp exampleHost overrunFrame := sent_frame_accepted hlen rfl
  have hrecv := receiveFrame_of_accepted hacc hserver rfl
  rw [hcarried] at hrecv
  refine ⟨?_, _, hrecv, by rw [hpl]; decide, by decide, ?_, by decide, ?_, by decide, ?_⟩
  · rw [overrunFrame, List.length_append, length_sentHeaders, List.append_nil, length_udpSegment,
      hpl]
    decide
  -- the payload covers the offsets 22210 to 24215 of the server
  all_goals decide +kernel

end Mboot.Net
