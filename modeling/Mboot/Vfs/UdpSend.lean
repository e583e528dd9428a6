import Mboot.Net.Send
import Mboot.Vfs.Model

/-!
# Writes that end in a datagram

`socket_write`, `socket_sendto` and `device_write` on `/dev/udp`, down to the frames on
the wire. The size is cast to `uint16_t` on the way to `udp_send`, which adds the eight
bytes of the UDP header in 16 bits.

* `udp_send_reports_iff`: a result `n ≥ 0` stands for one datagram with exactly the `n`
  bytes if and only if neither step wraps, or the call fails in spite of the wrap.
* `device_write_of_65537`: a write of 65537 bytes sends one byte and returns 65537.
-/

namespace Mboot.Vfs

open Net

variable {τ : Type*} {w : Wire} {src : List UInt8}

/-- `device_write` on a `/dev/udp` terminal with a peer. -/
theorem deviceWrite_reports_iff {dev : Devices τ (Option Wire)}
    (hdev : dev.udpSendLocal = wireSend) {b : Backends τ (Option Wire)}
    (hnet : b.hardware = some w) {handle : ℤ} (hhandle : handle ≤ devUdpBase)
    {i : Fin udpTtyMaxPorts} {ttys : UdpTtys}
    (htty : udpTtyForPort b.udpTtys ((devUdpBase - handle) % 2 ^ 16).toNat = (some i, ttys))
    (hpeer : (ttys i).stream.hasPeer = true) {buf : ℕ} (hbuf : buf ≠ 0)
    (hlen : src.length < 2 ^ 32) :
    Reports w (deviceWrite dev b handle buf src).1 (deviceWrite dev b handle buf src).2.hardware
        src ↔
      (Routable w.host (ttys i).stream.peerIp → SendableSize src.length) := by
  have hport : udpTtyHandlePort handle = some (devUdpBase - handle) := if_pos hhandle
  simp only [devUdpBase] at hhandle
  have hnull : ¬ (handle = devNull ∨ handle = devZero) := by
    simp only [devNull, devZero]
    omega
  have hfull : handle ≠ devFull := by
    simp only [devFull]
    omega
  have htid : ttyHandleId handle = none := by
    apply dif_neg
    simp only [devTtyBase, ttyCount]
    omega
  unfold deviceWrite
  simp only [if_neg hnull, if_neg hfull, htid, hport, udpTtyWrite, htty, if_neg hbuf, hdev, hnet]
  exact streamWrite_reports_iff w (ttys i).port hpeer hlen

/-- For every state with a peer, every buffer and every size that the calls accept, a
    call sends what it reports if and only if there is no route to the peer or: for a
    socket, the socket is not a raw one that sends echo requests and the UDP length does
    not wrap; for `/dev/udp`, `SendableSize` holds. -/
theorem udp_send_reports_iff (w : Wire) (src : List UInt8) :
    (∀ (sockets : Sockets) handle i buf, socketFromHandle sockets handle = some i →
      (sockets i).bound = true → (sockets i).stream.hasPeer = true → buf ≠ 0 →
      src.length ≤ 65535 →
      (Reports w (socketWrite wireSend sockets (some w) handle buf src).1
          (socketWrite wireSend sockets (some w) handle buf src).2.2 src ↔
        (Routable w.host (sockets i).stream.peerIp → udpHdrSize + src.length < 2 ^ 16))) ∧
    (∀ (sockets : Sockets) handle i buf dstIp dstPort,
      socketFromHandle sockets handle = some i → buf ≠ 0 → src.length ≤ 65535 →
      (Reports w (socketSendto sockets (some w) handle buf src (some (dstIp, dstPort))).1
          (socketSendto sockets (some w) handle buf src (some (dstIp, dstPort))).2.2 src ↔
        (Routable w.host dstIp →
          (sockets i).isRaw = false ∧ udpHdrSize + src.length < 2 ^ 16))) ∧
    ∀ (dev : Devices τ (Option Wire)) b handle i ttys buf, dev.udpSendLocal = wireSend →
      b.hardware = some w → handle ≤ devUdpBase →
      udpTtyForPort b.udpTtys ((devUdpBase - handle) % 2 ^ 16).toNat = (some i, ttys) →
      (ttys i).stream.hasPeer = true → buf ≠ 0 → src.length < 2 ^ 32 →
      (Reports w (deviceWrite dev b handle buf src).1
          (deviceWrite dev b handle buf src).2.hardware src ↔
        (Routable w.host (ttys i).stream.peerIp → SendableSize src.length)) := by
  refine ⟨?_, ?_, ?_⟩
  · intro sockets handle i buf hsock hbound hpeer hbuf hlen
    exact socketWrite_reports_iff hsock hbound hpeer hbuf hlen
  · intro sockets handle i buf dstIp dstPort hsock hbuf hlen
    exact socketSendto_reports_iff hsock hbuf hlen dstIp dstPort
  · intro dev b handle i ttys buf hdev hnet hhandle htty hpeer hbuf hlen
    exact deviceWrite_reports_iff hdev hnet hhandle htty hpeer hbuf hlen

/-- The terminal `/dev/udp7`, with port 4000 of `10.0.0.9` as its peer. -/
def udpTtyWithPeer : UdpTtys := fun i =>
  if i.val = 0 then ⟨7, true, { Stream.zero with
    hasPeer := true, peerIp := ⟨10, 0, 0, 9⟩, peerPort := 4000 }⟩
  else ⟨0, false, Stream.zero⟩

/-- A system in which only this terminal is open. -/
def udpTtyBackends : Backends Unit (Option Wire) where
  openFiles := fun _ => ⟨0, 0, 0, false, 0⟩
  cpuinfoFiles := fun _ => ⟨false, 0, 0⟩
  sockets := fun _ => Socket.zero
  udpTtys := udpTtyWithPeer
  servers := fun _ => none
  ttys := fun _ => ()
  hardware := some ⟨exampleHost, []⟩

/-- Devices of which only the network is used. -/
def udpDevices : Devices Unit (Option Wire) where
  ttyRead := fun t hw _ _ => (.waiting, t, hw)
  ttyWriteBuf := fun t hw _ _ => (-1, t, hw)
  udpSendLocal := wireSend
  cpuinfoText := []
  volume := ⟨fun _ => 0, ⟨0, 0, 0, 0, 0, 0⟩, 0⟩

theorem udp_send_reports_three_bytes :
    Reports ⟨exampleHost, []⟩ (deviceWrite udpDevices udpTtyBackends (-1031) 1 [104, 105, 33]).1
      (deviceWrite udpDevices udpTtyBackends (-1031) 1 [104, 105, 33]).2.hardware
      [104, 105, 33] := by
  have hall := udp_send_reports_iff (τ := Unit) ⟨exampleHost, []⟩ [104, 105, 33]
  have hiff := hall.2.2 udpDevices udpTtyBackends (-1031) 0 udpTtyWithPeer 1 rfl rfl (by decide)
    (by decide) rfl (by decide) (by decide)
  exact hiff.mpr fun _ => by
    unfold SendableSize
    decide

/-- 65537 bytes are reported, and one is sent. -/
theorem device_write_of_65537 :
    ¬ Reports ⟨exampleHost, []⟩
      (deviceWrite udpDevices udpTtyBackends (-1031) 1 (List.replicate 65537 0x61)).1
      (deviceWrite udpDevices udpTtyBackends (-1031) 1 (List.replicate 65537 0x61)).2.hardware
      (List.replicate 65537 0x61) := by
  have hlen : (List.replicate 65537 (0x61 : UInt8)).length = 65537 := List.length_replicate
  have hiff := deviceWrite_reports_iff
    (show udpDevices.udpSendLocal = wireSend from rfl)
    (show udpTtyBackends.hardware = some ⟨exampleHost, []⟩ from rfl)
    (show (-1031 : ℤ) ≤ devUdpBase by decide)
    (show udpTtyForPort udpTtyBackends.udpTtys _ = (some 0, udpTtyWithPeer) from rfl) rfl
    (show 1 ≠ 0 by decide)
    (show (List.replicate 65537 (0x61 : UInt8)).length < 2 ^ 32 by rw [hlen]; decide)
  rw [hiff, hlen]
  intro h
  have hsize := h ⟨rfl, rfl⟩
  unfold SendableSize at hsize
  revert hsize
  decide

end Mboot.Vfs
