import Mboot.Common.Fifo
import Mboot.Net.RoundTrip

/-!
# UDP ports as bounded queues

Each userspace server is a ring of `UDP_MAX_QUEUE` datagrams with 8-bit `head`
and `count`. Datagrams arrive and are received in any order, on any of the
bound ports.

* `pendingOn`: the datagrams in the ring of a port, oldest first.
* `udpServerEnqueue_pending`, `udpServerRecv_spec`: an arrival appends to that
  list unless it is full, and `udp_server_recv` takes its first entry.
* `udp_port_fifo`: what is received on a port is, in order and each once, what
  arrived there and found room, whatever happens on the other ports.
-/

namespace Mboot.Net

open Common

/-! ## One server -/

/-- Source address, source port and payload of a datagram. -/
abbrev Received := Ip × ℕ × List UInt8

/-- What a receiver that takes at most `maxLen` bytes gets of a datagram. -/
def Datagram.truncate (d : Datagram) (maxLen : ℕ) : Received :=
  (d.srcIp, d.srcPort, d.payload.take maxLen)

/-- What is queued of a datagram. -/
def Datagram.entry (d : Datagram) : Received := (d.srcIp, d.srcPort, d.payload)

/-- The datagram in `queue[slot]`. -/
def ServerMem.entryAt (m : ServerMem) (slot : ℕ) : Received :=
  let dgram := slotOff slot
  (⟨m (dgram + 2), m (dgram + 3), m (dgram + 4), m (dgram + 5)⟩, load 2 m (dgram + 6),
    slice m (dgram + 8) (load 2 m dgram))

/-- The queued datagrams, oldest first. -/
def ServerMem.pending (m : ServerMem) : List Received :=
  ringContents udpMaxQueue m.entryAt m.head m.count

/-- `head` and `count` are in range and no slot claims more than it holds. -/
structure ServerOk (m : ServerMem) : Prop where
  head : m.head < udpMaxQueue
  count : m.count ≤ udpMaxQueue
  lens : ∀ slot < udpMaxQueue, load 2 m (slotOff slot) ≤ udpMaxDgram

theorem Stored.entryAt {m : ServerMem} {slot : ℕ} {d : Datagram} (h : Stored m slot d) :
    m.entryAt slot = d.entry := by
  have hip : (⟨m (slotOff slot + 2), m (slotOff slot + 3), m (slotOff slot + 4),
      m (slotOff slot + 5)⟩ : Ip) = d.srcIp := by
    have hbytes : [m (slotOff slot + 2), m (slotOff slot + 3), m (slotOff slot + 4),
        m (slotOff slot + 5)] = d.srcIp.bytes := h.srcIp
    simp only [Ip.bytes, List.cons.injEq, and_true] at hbytes
    obtain ⟨h1, h2, h3, h4⟩ := hbytes
    rw [h1, h2, h3, h4]
  rw [ServerMem.entryAt, Datagram.entry, hip, h.srcPort, h.len, h.payload]

/-- The datagram in a slot depends on the bytes of the slot only. -/
theorem entryAt_congr {m m' : ServerMem} {slot : ℕ}
    (hlen : load 2 m (slotOff slot) ≤ udpMaxDgram)
    (h : ∀ i < dgramSize, m' (slotOff slot + i) = m (slotOff slot + i)) :
    m'.entryAt slot = m.entryAt slot := by
  have hload : ∀ a, a + 2 ≤ 8 → load 2 m' (slotOff slot + a) = load 2 m (slotOff slot + a) := by
    intro a ha
    apply load_congr
    intro i hi
    rw [Nat.add_assoc]
    exact h (a + i) (by simp only [dgramSize, udpMaxDgram]; omega)
  have hzero := hload 0 (by omega)
  rw [Nat.add_zero] at hzero
  rw [ServerMem.entryAt, ServerMem.entryAt, hzero, hload 6 (by omega), h 2 (by decide),
    h 3 (by decide), h 4 (by decide), h 5 (by decide)]
  congr 2
  apply slice_congr
  intro i hi
  rw [Nat.add_assoc]
  exact h (8 + i) (by simp only [dgramSize]; omega)

theorem slotOff_ne {j k : ℕ} (h : j ≠ k) :
    slotOff j + dgramSize ≤ slotOff k ∨ slotOff k + dgramSize ≤ slotOff j := by
  simp only [slotOff, dgramSize, udpMaxDgram]
  omega

/-- An arrival that finds room is appended. -/
theorem udpServerEnqueue_pending {m : ServerMem} {d : Datagram} (h : ServerOk m)
    (hroom : m.count < udpMaxQueue) (hlen : d.payload.length ≤ udpMaxDgram)
    (hport : d.srcPort < 2 ^ 16) :
    (udpServerEnqueue m d).pending = m.pending ++ [d.entry] ∧ ServerOk (udpServerEnqueue m d) ∧
      (udpServerEnqueue m d).port = m.port := by
  obtain ⟨hstored, hcount, hframe⟩ := udpServerEnqueue_spec m d hroom hlen hport
  have hnext := slotOff_add_le m.nextSlot_lt
  have hoff : countOff = headOff + 1 := rfl
  have hhead : (udpServerEnqueue m d).head = m.head := by
    rw [ServerMem.head, ServerMem.head, hframe headOff (by omega) (by omega)]
  -- the other slots keep their bytes
  have hother : ∀ k < udpMaxQueue, k ≠ m.nextSlot → ∀ i < dgramSize,
      udpServerEnqueue m d (slotOff k + i) = m (slotOff k + i) := by
    intro k hk hne i hi
    have hkoff := slotOff_add_le hk
    have hsep := slotOff_ne hne
    exact hframe _ (by omega) (by omega)
  refine ⟨?_, ⟨?_, ?_, ?_⟩, ?_⟩
  · rw [ServerMem.pending, hhead, hcount]
    apply ringContents_push hroom hstored.entryAt
    intro k hk hne
    exact entryAt_congr (h.lens k hk) (hother k hk hne)
  · rw [hhead]
    exact h.head
  · omega
  · intro k hk
    by_cases hne : k = m.nextSlot
    · rw [hne, hstored.len]
      exact hlen
    · rw [load_congr fun i hi => hother k hk hne i (by simp only [dgramSize, udpMaxDgram]; omega)]
      exact h.lens k hk
  · apply load_congr
    intro i hi
    have : 2 ≤ slotOff m.nextSlot := by simp only [slotOff]; omega
    exact hframe _ (by simp only [hoff, headOff, udpMaxQueue, dgramSize, udpMaxDgram]; omega)
      (by omega)

/-- The server after `udp_server_recv` has taken a datagram (lines 158–161). -/
def ServerMem.dequeue (m : ServerMem) : ServerMem :=
  let m' := store m headOff [UInt8.ofNat ((m.head + 1) % udpMaxQueue)]
  store m' countOff [m' countOff - 1]

/-- The oldest datagram is removed. -/
theorem dequeue_pending {m : ServerMem} (h : ServerOk m) (hcount : m.count ≠ 0) :
    m.pending = m.entryAt m.head :: m.dequeue.pending ∧ ServerOk m.dequeue ∧
      m.dequeue.port = m.port := by
  have hoff : countOff = headOff + 1 := rfl
  have hlow : ∀ x < headOff, m.dequeue x = m x := by
    intro x hx
    rw [ServerMem.dequeue, store_of_outside _ (by omega), store_of_outside _ (by omega)]
  have hheadByte : m.dequeue headOff = UInt8.ofNat ((m.head + 1) % udpMaxQueue) := by
    rw [ServerMem.dequeue, store_of_outside _ (by omega)]
    exact store_apply m headOff (show 0 < [_].length by simp)
  have hcountByte : m.dequeue countOff = m countOff - 1 := by
    have hlast : ∀ (f : ServerMem) (b : UInt8), store f countOff [b] countOff = b := fun f b =>
      store_apply f countOff (show 0 < [b].length by simp)
    rw [ServerMem.dequeue, hlast, store_of_outside m (by simp only [List.length_singleton]; omega)]
  have hnext : (m.head + 1) % udpMaxQueue < udpMaxQueue := Nat.mod_lt _ (by decide)
  have hhead : m.dequeue.head = (m.head + 1) % udpMaxQueue := by
    rw [ServerMem.head, hheadByte, UInt8.toNat_ofNat', Nat.mod_eq_of_lt]
    exact lt_trans hnext (by decide)
  have hcount' : m.dequeue.count + 1 = m.count := by
    have hpos : (1 : UInt8) ≤ m countOff := by
      rw [UInt8.le_iff_toNat_le]
      show 1 ≤ m.count
      omega
    rw [ServerMem.count, hcountByte, UInt8.toNat_sub_of_le _ _ hpos]
    show m.count - 1 + 1 = m.count
    omega
  have hslot : ∀ k < udpMaxQueue, ∀ i < dgramSize, m.dequeue (slotOff k + i) = m (slotOff k + i) := by
    intro k hk i hi
    have := slotOff_add_le hk
    exact hlow _ (by omega)
  refine ⟨?_, ⟨?_, ?_, ?_⟩, ?_⟩
  · rw [ServerMem.pending, ← hcount', ringContents_pop h.head, ServerMem.pending, hhead]
    congr 1
    apply ringContents_congr
    intro k _
    have hk : ((m.head + 1) % udpMaxQueue + k) % udpMaxQueue < udpMaxQueue :=
      Nat.mod_lt _ (by decide)
    exact (entryAt_congr (h.lens _ hk) (hslot _ hk)).symm
  · rw [hhead]
    exact hnext
  · have := h.count
    omega
  · intro k hk
    rw [load_congr fun i hi => hslot k hk i (by simp only [dgramSize, udpMaxDgram]; omega)]
    exact h.lens k hk
  · apply load_congr
    intro i hi
    exact hlow _ (by simp only [headOff, udpMaxQueue, dgramSize, udpMaxDgram]; omega)

/-! ## All servers -/

/-- The datagrams queued for a port, oldest first; `none` if it is not bound. -/
def pendingOn (servers : Servers) (port : ℕ) : Option (List Received) :=
  (udpFindServer servers port).bind fun i => (servers i).map ServerMem.pending

def ServersOk (servers : Servers) : Prop := ∀ i m, servers i = some m → ServerOk m

theorem udpFindServer_some {servers : Servers} {port : ℕ} {i : Fin udpMaxServers}
    (h : udpFindServer servers port = some i) : ∃ m, servers i = some m ∧ m.port = port := by
  have hany := List.find?_some h
  obtain ⟨m, hm, hport⟩ := (Option.any_eq_true _ _).mp hany
  exact ⟨m, hm, by simpa using hport⟩

/-- A change of a slot that serves `port` after it as before does not change who does. -/
theorem udpFindServer_update {servers : Servers} {i : Fin udpMaxServers} {m : ServerMem} {port : ℕ}
    (hm : (m.port == port) = (servers i).any fun m => m.port == port) :
    udpFindServer (Function.update servers i (some m)) port = udpFindServer servers port := by
  unfold udpFindServer
  congr 1
  funext j
  by_cases hj : j = i
  · subst hj
    rw [Function.update_self, ← hm, Option.any_some]
  · rw [Function.update_of_ne hj]

/-- Changing the server of `port` changes what is queued for `port` only. -/
theorem pendingOn_update {servers : Servers} {port : ℕ} {i : Fin udpMaxServers} {m m' : ServerMem}
    (hi : udpFindServer servers port = some i) (hm : servers i = some m)
    (hport : m'.port = m.port) (p : ℕ) :
    pendingOn (Function.update servers i (some m')) p =
      if p = port then some m'.pending else pendingOn servers p := by
  unfold pendingOn
  rw [udpFindServer_update (by rw [hm, hport, Option.any_some])]
  split_ifs with hp
  · subst hp
    rw [hi, Option.bind_some, Function.update_self, Option.map_some]
  · cases hj : udpFindServer servers p with
    | none => rfl
    | some j =>
      have hne : j ≠ i := by
        rintro rfl
        obtain ⟨m1, hm1, hp1⟩ := udpFindServer_some hi
        obtain ⟨m2, hm2, hp2⟩ := udpFindServer_some hj
        rw [hm1] at hm2
        cases hm2
        exact hp (hp2.symm.trans hp1)
      rw [Option.bind_some, Option.bind_some, Function.update_of_ne hne]

theorem ServersOk.update {servers : Servers} (h : ServersOk servers) {i : Fin udpMaxServers}
    {m : ServerMem} (hm : ServerOk m) : ServersOk (Function.update servers i (some m)) := by
  intro j m' hj
  by_cases hji : j = i
  · subst hji
    rw [Function.update_self] at hj
    cases hj
    exact hm
  · rw [Function.update_of_ne hji] at hj
    exact h j m' hj

/-- An arrival is appended to the queue of its port if that has room, and
    changes no other queue. -/
theorem deliver_spec {servers : Servers} {d : Datagram} (h : ServersOk servers)
    (hlen : d.payload.length ≤ udpMaxDgram) (hport : d.srcPort < 2 ^ 16) :
    ServersOk (deliver servers (.udp d)) ∧ ∀ p, pendingOn (deliver servers (.udp d)) p =
      if p = d.dstPort then (pendingOn servers p).map fun q =>
        if q.length < udpMaxQueue then q ++ [d.entry] else q
      else pendingOn servers p := by
  cases hi : udpFindServer servers d.dstPort with
  | none =>
    have hdel : deliver servers (.udp d) = servers := by simp [deliver, hi]
    rw [hdel]
    refine ⟨h, fun p => ?_⟩
    split_ifs with hp
    · subst hp
      simp [pendingOn, hi]
    · rfl
  | some i =>
    obtain ⟨m, hm, -⟩ := udpFindServer_some hi
    have hok := h i m hm
    have hq : pendingOn servers d.dstPort = some m.pending := by simp [pendingOn, hi, hm]
    have hlength : m.pending.length = m.count := length_ringContents
    have hdel : deliver servers (.udp d) =
        Function.update servers i (some (udpServerEnqueue m d)) := by
      simp [deliver, hi, hm]
    rw [hdel]
    by_cases hroom : m.count < udpMaxQueue
    · obtain ⟨hpend, hok', hport'⟩ := udpServerEnqueue_pending hok hroom hlen hport
      refine ⟨h.update hok', fun p => ?_⟩
      rw [pendingOn_update hi hm hport']
      split_ifs with hp
      · subst hp
        rw [hq, Option.map_some, if_pos (by rw [hlength]; exact hroom), hpend]
      · rfl
    · have hfull : udpServerEnqueue m d = m := by rw [udpServerEnqueue, if_pos (by omega)]
      rw [hfull, Function.update_eq_self_iff.mpr hm.symm]
      refine ⟨h, fun p => ?_⟩
      split_ifs with hp
      · subst hp
        rw [hq, Option.map_some, if_neg (by rw [hlength]; exact hroom)]
      · rfl

/-- `udp_server_recv` takes the oldest datagram queued for its port, and fails
    exactly if there is none. -/
theorem udpServerRecv_spec {servers : Servers} (h : ServersOk servers) (port maxLen : ℕ) :
    (udpServerRecv servers port maxLen = none ∧ (pendingOn servers port).getD [] = []) ∨
    ∃ e q servers', pendingOn servers port = some (e :: q) ∧
      udpServerRecv servers port maxLen =
        some (e.1, e.2.1, e.2.2.take maxLen, servers') ∧
      ServersOk servers' ∧
      ∀ p, pendingOn servers' p = if p = port then some q else pendingOn servers p := by
  cases hi : udpFindServer servers port with
  | none => exact Or.inl ⟨by simp [udpServerRecv, hi], by simp [pendingOn, hi]⟩
  | some i =>
    obtain ⟨m, hm, -⟩ := udpFindServer_some hi
    have hok := h i m hm
    have hq : pendingOn servers port = some m.pending := by simp [pendingOn, hi, hm]
    by_cases hcount : m.count = 0
    · refine Or.inl ⟨by simp [udpServerRecv, hi, hm, hcount], ?_⟩
      rw [hq, ServerMem.pending, hcount]
      rfl
    · obtain ⟨hpend, hok', hport'⟩ := dequeue_pending hok hcount
      refine Or.inr ⟨m.entryAt m.head, m.dequeue.pending,
        Function.update servers i (some m.dequeue), by rw [hq, hpend], ?_, h.update hok', ?_⟩
      · have htake : (m.entryAt m.head).2.2.take maxLen = slice m (slotOff m.head + 8)
            (if load 2 m (slotOff m.head) > maxLen then maxLen else load 2 m (slotOff m.head)) := by
          rw [ServerMem.entryAt, take_slice]
          congr 1
          split_ifs <;> omega
        rw [htake]
        simp [udpServerRecv, hi, hm, hcount, ServerMem.entryAt, ServerMem.dequeue]
      · intro p
        exact pendingOn_update hi hm hport' p

/-! ## Runs -/

/-- A datagram arrives, or a task receives on a port. -/
inductive UdpOp
  | arrive (d : Datagram)
  | recv (port maxLen : ℕ)
  deriving DecidableEq

/-- The port an operation concerns. -/
def UdpOp.port : UdpOp → ℕ
  | .arrive d => d.dstPort
  | .recv port _ => port

/-- The arrivals considered: a payload that fits a slot, and a source port that
    is one. -/
def UdpOp.Fits : UdpOp → Prop
  | .arrive d => d.payload.length ≤ udpMaxDgram ∧ d.srcPort < 2 ^ 16
  | .recv _ _ => True

/-- The history of a port: the arrivals that found room, the datagrams received
    and the buffer sizes they were received with. -/
structure PortLog where
  accepted : List Datagram
  received : List Received
  takes : List ℕ
  deriving DecidableEq

/-- Nothing has happened yet. -/
def PortLog.empty : PortLog := ⟨[], [], []⟩

/-- The number of datagrams that were accepted and not received yet. -/
def PortLog.pending (log : PortLog) : ℕ := log.accepted.length - log.received.length

/-- One operation on the servers, and what it adds to the history of `p`. -/
def observe (p : ℕ) (s : Servers × PortLog) : UdpOp → Servers × PortLog
  | .arrive d =>
    (deliver s.1 (.udp d),
      if d.dstPort = p ∧ s.2.pending < udpMaxQueue then
        { s.2 with accepted := s.2.accepted ++ [d] }
      else s.2)
  | .recv port maxLen =>
    match udpServerRecv s.1 port maxLen with
    | none => s
    | some (srcIp, srcPort, payload, servers) =>
      (servers,
        if port = p then
          { s.2 with
            received := s.2.received ++ [(srcIp, srcPort, payload)]
            takes := s.2.takes ++ [maxLen] }
        else s.2)

/-- The servers after `udp_init` and a `udp_server_bind` of each port. -/
def bindPorts (ports : List ℕ) : Servers :=
  ports.foldl (fun servers port => (udpServerBind servers port).2) fun _ => none

/-- The bounded queue a port should be, as a function of the history alone. -/
def queueStep (p : ℕ) (log : PortLog) : UdpOp → PortLog
  | .arrive d =>
    if d.dstPort = p ∧ log.pending < udpMaxQueue then { log with accepted := log.accepted ++ [d] }
    else log
  | .recv port maxLen =>
    if port = p then
      match log.accepted[log.received.length]? with
      | none => log
      | some d =>
        { log with
          received := log.received ++ [d.truncate maxLen]
          takes := log.takes ++ [maxLen] }
    else log

/-- The ring of `p` holds what was accepted and not received yet, and what was
    received is what was accepted first. -/
structure FifoInv (p : ℕ) (s : Servers × PortLog) : Prop where
  servers : ServersOk s.1
  pending : pendingOn s.1 p =
    some ((s.2.accepted.drop s.2.received.length).map Datagram.entry)
  received : s.2.received =
    List.zipWith Datagram.truncate (s.2.accepted.take s.2.takes.length) s.2.takes
  takes : s.2.takes.length ≤ s.2.accepted.length

theorem FifoInv.length_received {p : ℕ} {s : Servers × PortLog} (h : FifoInv p s) :
    s.2.received.length = s.2.takes.length := by
  rw [h.received, List.length_zipWith, List.length_take_of_le h.takes, Nat.min_self]

theorem FifoInv.arrive {p : ℕ} {s : Servers × PortLog} (h : FifoInv p s) {d : Datagram}
    (hd : (UdpOp.arrive d).Fits) : FifoInv p (observe p s (.arrive d)) := by
  obtain ⟨hok, hpend⟩ := deliver_spec h.servers hd.1 hd.2
  have hlen := h.length_received
  have hle := h.takes
  have hpq : ((s.2.accepted.drop s.2.received.length).map Datagram.entry).length = s.2.pending := by
    simp [PortLog.pending]
  by_cases hroom : d.dstPort = p ∧ s.2.pending < udpMaxQueue
  · have hlog : observe p s (.arrive d) =
        (deliver s.1 (.udp d), { s.2 with accepted := s.2.accepted ++ [d] }) := by
      simp only [observe, if_pos hroom]
    rw [hlog]
    refine ⟨hok, ?_, ?_, ?_⟩
    · show pendingOn (deliver s.1 (.udp d)) p =
        some (((s.2.accepted ++ [d]).drop s.2.received.length).map Datagram.entry)
      rw [hpend, if_pos hroom.1.symm, h.pending, Option.map_some,
        if_pos (by rw [hpq]; exact hroom.2), List.drop_append_of_le_length (by omega),
        List.map_append, List.map_singleton]
    · show s.2.received =
        List.zipWith Datagram.truncate ((s.2.accepted ++ [d]).take s.2.takes.length) s.2.takes
      rw [List.take_append_of_le_length hle]
      exact h.received
    · show s.2.takes.length ≤ (s.2.accepted ++ [d]).length
      rw [List.length_append]
      omega
  · have hlog : observe p s (.arrive d) = (deliver s.1 (.udp d), s.2) := by
      simp only [observe, if_neg hroom]
    rw [hlog]
    refine ⟨hok, ?_, h.received, h.takes⟩
    show pendingOn (deliver s.1 (.udp d)) p = _
    rw [hpend]
    split_ifs with hp
    · have hfull : ¬ s.2.pending < udpMaxQueue := fun hlt => hroom ⟨hp.symm, hlt⟩
      rw [h.pending, Option.map_some, if_neg (by rw [hpq]; exact hfull)]
    · exact h.pending

/-- A receive on `p` gets the first datagram that was accepted and not received
    yet. -/
theorem FifoInv.recv {p : ℕ} {s : Servers × PortLog} (h : FifoInv p s) (port maxLen : ℕ) :
    FifoInv p (observe p s (.recv port maxLen)) ∧
      (observe p s (.recv port maxLen)).2 = queueStep p s.2 (.recv port maxLen) := by
  have hlen := h.length_received
  have hle := h.takes
  rcases udpServerRecv_spec h.servers port maxLen with
    ⟨hnone, hempty⟩ | ⟨e, q, servers', hq, hsome, hok, hpend⟩
  · have hobs : observe p s (.recv port maxLen) = s := by simp only [observe, hnone]
    rw [hobs]
    refine ⟨h, ?_⟩
    by_cases hp : port = p
    · -- nothing pending, so all that was accepted has been received
      subst hp
      rw [h.pending, Option.getD_some, List.map_eq_nil_iff, List.drop_eq_nil_iff] at hempty
      simp only [queueStep, if_pos, List.getElem?_eq_none hempty]
    · simp only [queueStep, if_neg hp]
  · by_cases hp : port = p
    · subst hp
      rw [h.pending, Option.some.injEq] at hq
      -- the entry taken is the next one in the history
      have hlt : s.2.received.length < s.2.accepted.length := by
        by_contra hge
        rw [List.drop_eq_nil_of_le (by omega)] at hq
        cases hq
      rw [List.drop_eq_getElem_cons hlt, List.map_cons, List.cons.injEq] at hq
      obtain ⟨rfl, hrest⟩ := hq
      have hget : s.2.accepted[s.2.received.length]? = some s.2.accepted[s.2.received.length] :=
        List.getElem?_eq_getElem hlt
      have hobs : observe port s (.recv port maxLen) =
          (servers', { s.2 with
            received := s.2.received ++ [s.2.accepted[s.2.received.length].truncate maxLen]
            takes := s.2.takes ++ [maxLen] }) := by
        simp only [observe, hsome, if_pos]
        rfl
      rw [hobs]
      refine ⟨⟨hok, ?_, ?_, ?_⟩, by simp only [queueStep, if_pos, hget]⟩
      · show pendingOn servers' port = some ((s.2.accepted.drop _).map Datagram.entry)
        rw [hpend, if_pos rfl, List.length_append, List.length_singleton, hrest]
      · show s.2.received ++ [s.2.accepted[s.2.received.length].truncate maxLen] =
          List.zipWith Datagram.truncate (s.2.accepted.take (s.2.takes ++ [maxLen]).length)
            (s.2.takes ++ [maxLen])
        have hlt' : s.2.takes.length < s.2.accepted.length := by omega
        rw [List.length_append, List.length_singleton, ← List.take_append_getElem hlt',
          List.zipWith_append (List.length_take_of_le hle), ← h.received]
        simp [hlen]
      · show (s.2.takes ++ [maxLen]).length ≤ s.2.accepted.length
        rw [List.length_append, List.length_singleton]
        omega
    · have hobs : observe p s (.recv port maxLen) = (servers', s.2) := by
        simp only [observe, hsome, if_neg hp]
      rw [hobs]
      refine ⟨⟨hok, ?_, h.received, h.takes⟩, by simp only [queueStep, if_neg hp]⟩
      show pendingOn servers' p = _
      rw [hpend, if_neg (Ne.symm hp)]
      exact h.pending

/-- One operation keeps the invariant and does to the history what the bounded
    queue does. -/
theorem FifoInv.step {p : ℕ} {s : Servers × PortLog} (h : FifoInv p s) {op : UdpOp}
    (hop : op.Fits) : FifoInv p (observe p s op) ∧ (observe p s op).2 = queueStep p s.2 op := by
  cases op with
  | arrive d => exact ⟨h.arrive hop, rfl⟩
  | recv port maxLen => exact h.recv port maxLen

/-- The same for a whole run. -/
theorem FifoInv.run {p : ℕ} {ops : List UdpOp} {s : Servers × PortLog} (h : FifoInv p s)
    (hops : ∀ op ∈ ops, op.Fits) :
    FifoInv p (ops.foldl (observe p) s) ∧
      (ops.foldl (observe p) s).2 = ops.foldl (queueStep p) s.2 := by
  induction ops generalizing s with
  | nil => exact ⟨h, rfl⟩
  | cons op ops ih =>
    obtain ⟨hinv, hlog⟩ := h.step (hops op (by simp))
    rw [List.foldl_cons, List.foldl_cons, ← hlog]
    exact ih hinv fun o ho => hops o (List.mem_cons_of_mem _ ho)

/-! ## Binding -/

/-- A server whose bytes behind the port are zero has nothing queued. -/
theorem zeroed_server {m : ServerMem} (hzero : ∀ x, 2 ≤ x → m x = 0) :
    ServerOk m ∧ m.pending = [] := by
  have hhead : m.head = 0 := by
    rw [ServerMem.head, hzero _ (by decide)]
    rfl
  have hcount : m.count = 0 := by
    rw [ServerMem.count, hzero _ (by decide)]
    rfl
  refine ⟨⟨by rw [hhead]; decide, by rw [hcount]; decide, fun slot _ => ?_⟩, ?_⟩
  · have hload : load 2 m (slotOff slot) = load 2 (fun _ => 0) (slotOff slot) := by
      apply load_congr
      intro i _
      exact hzero _ (by simp only [slotOff]; omega)
    rw [hload]
    exact Nat.zero_le _
  · rw [ServerMem.pending, hcount]
    rfl

/-! ## New servers -/

/-- There is a server for the port. -/
def Serves (servers : Servers) (port : ℕ) : Prop := ∃ i m, servers i = some m ∧ m.port = port

theorem serves_iff {servers : Servers} {port : ℕ} :
    Serves servers port ↔ (udpFindServer servers port).isSome := by
  constructor
  · rintro ⟨i, m, hm, hport⟩
    refine List.find?_isSome.mpr ⟨i, List.mem_finRange i, ?_⟩
    rw [hm, Option.any_some, hport, beq_self_eq_true]
  · intro h
    obtain ⟨i, hi⟩ := Option.isSome_iff_exists.mp h
    obtain ⟨m, hm, hport⟩ := udpFindServer_some hi
    exact ⟨i, m, hm, hport⟩

/-- A new server in a free slot. -/
theorem serves_update {servers : Servers} {port : ℕ} {k : Fin udpMaxServers} {m : ServerMem}
    (hk : servers k = none) :
    Serves (Function.update servers k (some m)) port ↔ Serves servers port ∨ m.port = port := by
  constructor
  · rintro ⟨j, m', hm', hport⟩
    by_cases hj : j = k
    · subst hj
      rw [Function.update_self] at hm'
      cases hm'
      exact .inr hport
    · rw [Function.update_of_ne hj] at hm'
      exact .inl ⟨j, m', hm', hport⟩
  · rintro (⟨j, m', hm', hport⟩ | hport)
    · have hj : j ≠ k := by
        rintro rfl
        rw [hk] at hm'
        cases hm'
      exact ⟨j, m', by rw [Function.update_of_ne hj]; exact hm', hport⟩
    · exact ⟨k, m, Function.update_self .., hport⟩

/-- `udp_server_bind` fails when it finds neither the port nor a free slot, and
    otherwise adds the port if it is not there. -/
theorem udpServerBind_outcome (servers : Servers) {port : ℕ} (hport : port < 2 ^ 16) :
    (udpServerBind servers port = (0, servers) ∧ Serves servers port) ∨
    (udpServerBind servers port = (-1, servers) ∧ ¬Serves servers port ∧
      ∀ k, servers k ≠ none) ∨
    ∃ k m, udpServerBind servers port = (0, Function.update servers k (some m)) ∧
      ¬Serves servers port ∧ servers k = none ∧ m.port = port ∧ ServerOk m ∧
      m.pending = [] := by
  unfold udpServerBind
  split
  · next i hi => exact .inl ⟨rfl, serves_iff.mpr (by rw [hi]; rfl)⟩
  · next hnone =>
    have hserves : ¬Serves servers port := by
      rw [serves_iff, hnone]
      exact Bool.false_ne_true
    split
    · next hfull =>
      refine .inr (.inl ⟨rfl, hserves, fun k hk => ?_⟩)
      have := List.find?_eq_none.mp hfull k (List.mem_finRange k)
      rw [hk] at this
      exact this rfl
    · next k hk =>
      refine .inr (.inr ⟨k, _, rfl, hserves, ?_, ?_,
        zeroed_server fun x hx => storeWord_of_outside _ _ (by omega)⟩)
      · have hfree := List.find?_some hk
        exact Option.isNone_iff_eq_none.mp hfree
      · rw [ServerMem.port, load_storeWord]
        exact Nat.mod_eq_of_lt hport

/-- A new server is found under its port, and the others as before. -/
theorem pendingOn_insert {servers : Servers} {k : Fin udpMaxServers} {m : ServerMem}
    (hk : servers k = none) (hnew : ¬Serves servers m.port) (p : ℕ) :
    pendingOn (Function.update servers k (some m)) p =
      if p = m.port then some m.pending else pendingOn servers p := by
  split_ifs with hp
  · obtain ⟨j, hj⟩ := Option.isSome_iff_exists.mp
      (serves_iff.mp ((serves_update hk).mpr (.inr hp.symm)))
    obtain ⟨m', hm', hport⟩ := udpFindServer_some hj
    have hjk : j = k := by
      by_contra hne
      rw [Function.update_of_ne hne] at hm'
      exact hnew ⟨j, m', hm', hport.trans hp⟩
    rw [pendingOn, hj, hjk, Option.bind_some, Function.update_self, Option.map_some]
  · have hother : (m.port == p) = (servers k).any fun m => m.port == p := by
      rw [hk, Option.any_none, beq_eq_false_iff_ne]
      exact Ne.symm hp
    rw [pendingOn, pendingOn, udpFindServer_update hother]
    cases hj : udpFindServer servers p with
    | none => rfl
    | some j =>
      obtain ⟨m', hm', -⟩ := udpFindServer_some hj
      rw [Option.bind_some, Option.bind_some, Function.update_of_ne]
      rintro rfl
      cases hk.symm.trans hm'

/-- The datagrams queued for a port. -/
def queued (servers : Servers) (p : ℕ) : List Received := (pendingOn servers p).getD []

theorem queued_bind {servers : Servers} (h : ServersOk servers) (port : UInt16) :
    ServersOk (udpServerBind servers port.toNat).2 ∧
      ∀ p, queued (udpServerBind servers port.toNat).2 p = queued servers p := by
  obtain ⟨heq, -⟩ | ⟨heq, -⟩ | ⟨k, m, heq, hnew, hk, hport, hok, hempty⟩ :=
    udpServerBind_outcome servers port.toNat_lt
  · rw [heq]
    exact ⟨h, fun _ => rfl⟩
  · rw [heq]
    exact ⟨h, fun _ => rfl⟩
  rw [heq]
  refine ⟨h.update hok, fun p => ?_⟩
  rw [← hport] at hnew
  dsimp only
  rw [queued, queued, pendingOn_insert hk hnew]
  split_ifs with hp
  · -- the new queue is empty, and the port had none
    rw [serves_iff, Bool.not_eq_true, Option.isSome_eq_false_iff, Option.isNone_iff_eq_none,
      ← hp] at hnew
    rw [pendingOn, hnew, hempty]
    rfl
  · rfl

/-- Every bound port starts with an empty queue. -/
theorem bindPorts_ok (ports : List ℕ) : ∀ i m, bindPorts ports i = some m →
    ServerOk m ∧ m.pending = [] := by
  -- over the ports, the last one first
  induction ports using List.reverseRecOn with
  | nil =>
    intro i m hm
    cases hm
  | append_singleton ports port ih =>
    intro i m hm
    rw [bindPorts, List.foldl_append, List.foldl_cons, List.foldl_nil, ← bindPorts,
      udpServerBind] at hm
    split at hm
    · exact ih i m hm
    · split at hm
      · exact ih i m hm
      · next j _ =>
        dsimp only at hm
        by_cases hij : i = j
        · subst hij
          rw [Function.update_self] at hm
          cases hm
          exact zeroed_server fun x hx => storeWord_of_outside _ _ (by omega)
        · rw [Function.update_of_ne hij] at hm
          exact ih i m hm

theorem FifoInv.init {ports : List ℕ} {p : ℕ} (hp : (udpFindServer (bindPorts ports) p).isSome) :
    FifoInv p (bindPorts ports, PortLog.empty) := by
  obtain ⟨i, hi⟩ := Option.isSome_iff_exists.mp hp
  obtain ⟨m, hm, -⟩ := udpFindServer_some hi
  refine ⟨fun i m hm => (bindPorts_ok ports i m hm).1, ?_, rfl, le_rfl⟩
  show pendingOn (bindPorts ports) p = some []
  simp [pendingOn, hi, hm, (bindPorts_ok ports i m hm).2]

/-! ## Main theorem -/

/-- Operations on other ports do nothing to the bounded queue of `p`. -/
theorem queueStep_of_ne {p : ℕ} {op : UdpOp} (h : op.port ≠ p) (log : PortLog) :
    queueStep p log op = log := by
  cases op with
  | arrive d => exact if_neg fun hc => h hc.1
  | recv port maxLen => exact if_neg h

theorem foldl_queueStep_filter (p : ℕ) (ops : List UdpOp) (log : PortLog) :
    ops.foldl (queueStep p) log = (ops.filter (·.port = p)).foldl (queueStep p) log := by
  induction ops generalizing log with
  | nil => rfl
  | cons op ops ih =>
    by_cases hp : op.port = p
    · rw [List.filter_cons_of_pos (by simpa using hp), List.foldl_cons, List.foldl_cons]
      exact ih _
    · rw [List.filter_cons_of_neg (by simpa using hp), List.foldl_cons, queueStep_of_ne hp]
      exact ih _

/-- **A port is a bounded queue.** After any sequence of arrivals and receives
    on any ports, with payloads of at most 1472 bytes, for each bound port `p`:
    * the datagrams received on `p` are the first of those that arrived for `p`
      and found fewer than `UDP_MAX_QUEUE` pending, in order and each once, with
      their own source address and port, cut to the size of the receiver's
      buffer;
    * a further receive gets a datagram exactly if one is pending;
    * the whole history of `p` is the one without the operations on other ports. -/
theorem udp_port_fifo (ports : List ℕ) (ops : List UdpOp) (hops : ∀ op ∈ ops, op.Fits) {p : ℕ}
    (hp : (udpFindServer (bindPorts ports) p).isSome) :
    let final := ops.foldl (observe p) (bindPorts ports, PortLog.empty)
    let log := final.2
    log.received = List.zipWith Datagram.truncate (log.accepted.take log.takes.length) log.takes ∧
    log.takes.length ≤ log.accepted.length ∧
    (∀ maxLen, (udpServerRecv final.1 p maxLen).isSome ↔ 0 < log.pending) ∧
    log = ((ops.filter (·.port = p)).foldl (observe p) (bindPorts ports, PortLog.empty)).2 := by
  intro final log
  have hinit := FifoInv.init hp
  obtain ⟨hinv, hlog⟩ := hinit.run hops
  obtain ⟨-, hlog'⟩ := hinit.run fun op hop => hops op (List.mem_of_mem_filter hop)
  refine ⟨hinv.received, hinv.takes, fun maxLen => ?_, ?_⟩
  · have hpend : pendingOn final.1 p = some ((log.accepted.drop log.received.length).map _) :=
      hinv.pending
    rcases udpServerRecv_spec hinv.servers p maxLen with ⟨hnone, hempty⟩ | ⟨e, q, _, hq, hsome, -⟩
    · rw [hpend, Option.getD_some, List.map_eq_nil_iff, List.drop_eq_nil_iff] at hempty
      rw [hnone, PortLog.pending]
      simp only [Option.isSome_none, Bool.false_eq_true, false_iff]
      omega
    · rw [hpend, Option.some.injEq] at hq
      rw [hsome, PortLog.pending]
      simp only [Option.isSome_some, true_iff]
      have hlength := congrArg List.length hq
      rw [List.length_map, List.length_drop, List.length_cons] at hlength
      omega
  · rw [hlog', ← foldl_queueStep_filter]
    exact hlog

/-- Two datagrams for port 7 with one for port 9 between them; a task takes at
    most two bytes from each port. -/
def exampleOps : List UdpOp :=
  [.arrive ⟨⟨10, 0, 0, 9⟩, 4000, ⟨10, 0, 0, 2⟩, 7, [1, 2, 3]⟩,
    .arrive ⟨⟨10, 0, 0, 8⟩, 5000, ⟨10, 0, 0, 2⟩, 9, [4, 5, 6]⟩,
    .arrive ⟨⟨10, 0, 0, 9⟩, 4001, ⟨10, 0, 0, 2⟩, 7, [7]⟩, .recv 9 2, .recv 7 2]

theorem udp_port_fifo_two_ports :
    let final := exampleOps.foldl (observe 7) (bindPorts [7, 9], PortLog.empty)
    final.2.received = [(⟨10, 0, 0, 9⟩, 4000, [1, 2])] ∧
    (udpServerRecv final.1 7 1472).isSome ∧
    final.2 = ((exampleOps.filter (·.port = 7)).foldl (observe 7)
      (bindPorts [7, 9], PortLog.empty)).2 := by
  intro final
  have hfits : ∀ op ∈ exampleOps, op.Fits := by simp [exampleOps, UdpOp.Fits, udpMaxDgram]
  have hbound : (udpFindServer (bindPorts [7, 9]) 7).isSome := by decide
  obtain ⟨-, -, hmore, halone⟩ := udp_port_fifo [7, 9] exampleOps hfits hbound
  have hlog : final.2.received = [(⟨10, 0, 0, 9⟩, 4000, [1, 2])] ∧ 0 < final.2.pending := by
    decide +kernel
  exact ⟨hlog.1, (hmore 1472).mpr hlog.2, halone⟩

end Mboot.Net
