import Mboot.Net.Arp
import Mboot.Net.Fifo
import Mboot.Net.Send

/-!
# A network of hosts

Any number of hosts that all run this network code on one Ethernet segment. A host
broadcasts ARP requests, sends datagrams and echo requests, binds ports and reads from
them, and processes frames that some host has sent, in any order: a frame may be lost,
delivered late, delivered more than once and to any host.

Where `Mboot.Net.Model` takes `arp_resolve` as a parameter of the host, a send here uses
what `arp_try_get_mac` finds in the cache of the sender, which is how every successful
`arp_resolve` ends.

Main results:

* `frames_go_to_their_next_hop`: in every state the network can reach, every cache entry
  gives a host's own hardware address for its own address, and every IPv4 frame a host
  has ever sent carries the sender's address and goes to the hardware address of a host
  that has the address of the next hop.
* `queued_datagrams_were_sent`: every datagram queued at a host is carried by a frame that
  the host with its source address has sent.
-/

namespace Mboot.Net

open Common

variable {ι : Type}

/-! ## The network -/

/-- `e1k_send` on an adapter that transmits every frame it is given. -/
def NetState.transmit (s : NetState) (frame : List UInt8) : NetState :=
  if frame.length > E1k.txBufSize then s else { s with sent := frame :: s.sent }

/-- What a host does. -/
inductive NetEvent (ι : Type)
  /-- The request of `arp_resolve(target)`. -/
  | request (i : ι) (target : Ip)
  /-- `udp_send_local` with `udp_tx_identification = ident`. -/
  | datagram (i : ι) (dstIp : Ip) (srcPort dstPort ident : UInt16) (payload : List UInt8)
  /-- `icmp_send_echo`. -/
  | echo (i : ι) (dstIp : Ip) (identifier sequence : ℕ)
  /-- `eth_process_packet`. -/
  | receive (i : ι) (frame : List UInt8)
  /-- `udp_server_bind`. -/
  | bind (i : ι) (port : UInt16)
  /-- `udp_server_recv`. -/
  | recv (i : ι) (port maxLen : ℕ)

/-- The host with its cache as `arp_resolve`. -/
def resolving (host : Host) (s : NetState) (ident : UInt16) : Host :=
  { host with arpResolve := arpTryGetMac s.arpCache, identification := ident }

/-- The states of the hosts after an event; `none` where the source sends nothing because
    the host has no address or there is no entry for the next hop. -/
def networkStep [DecidableEq ι] (hosts : ι → Host) (s : ι → NetState) :
    NetEvent ι → Option (ι → NetState)
  | .request i target => do
    let srcIp ← (hosts i).localIp
    return Function.update s i ((s i).transmit (arpSendRequest (hosts i) srcIp target))
  | .datagram i dstIp srcPort dstPort ident payload => do
    let srcIp ← (hosts i).localIp
    let (frame, _) ← udpSend (resolving (hosts i) (s i) ident) srcIp dstIp none srcPort dstPort
      payload
    return Function.update s i ((s i).transmit frame)
  | .echo i dstIp identifier sequence => do
    let srcIp ← (hosts i).localIp
    let mac ← nextHop (resolving (hosts i) (s i) 0) dstIp none
    return Function.update s i ((s i).transmit (ipv4SendPacket (hosts i) srcIp dstIp mac
      ipv4ProtocolIcmp sequence (icmpEcho identifier sequence)))
  | .receive i frame => do
    let (_, state) ← processFrame (hosts i) (s i) frame
    return Function.update s i state
  | .bind i port =>
    let servers := (udpServerBind (s i).servers port.toNat).2
    some (Function.update s i { s i with servers })
  | .recv i port maxLen => do
    let (_, _, _, servers) ← udpServerRecv (s i).servers port maxLen
    return Function.update s i { s i with servers }

/-- Only frames that some host has sent are received, and only those of legal size. -/
def OnWire (s : ι → NetState) : NetEvent ι → Prop
  | .receive _ frame => frame.length ≤ 1514 ∧ ∃ j, frame ∈ (s j).sent
  | _ => True

/-- The addresses in the headers of a frame. -/
theorem ipv4SendPacket_fields {host : Host} {srcIp dstIp : Ip} {mac : Mac} {protocol : UInt8}
    {ident : ℕ} {payload frame : List UInt8}
    (hframe : frame = ipv4SendPacket host srcIp dstIp mac protocol ident payload) :
    be16At frame 12 = 0x0800 ∧ macAt frame 0 = mac ∧ ipAt frame 26 = srcIp ∧
      ipAt frame 30 = dstIp := by
  obtain ⟨checksum, rest, h⟩ : ∃ checksum rest,
      ipv4SendPacket host srcIp dstIp mac protocol ident payload =
        mac.bytes ++ host.mac.bytes ++ be16 0x0800 ++
          ipv4Header (ipv4HdrSize + payload.length) ident checksum protocol srcIp dstIp ++ rest :=
    ⟨_, _, List.append_assoc ..⟩
  rw [hframe, h]
  exact ⟨be16_value (show 0x0800 < 2 ^ 16 by decide), rfl, rfl, rfl⟩

/-! ## Queues -/

theorem queued_recv {servers : Servers} (h : ServersOk servers) {p maxLen : ℕ}
    {r : Ip × ℕ × List UInt8 × Servers}
    (hs : udpServerRecv servers p maxLen = some r) :
    ServersOk r.2.2.2 ∧ ∀ p', queued r.2.2.2 p' ⊆ queued servers p' := by
  obtain ⟨hnone, -⟩ | ⟨e, q, servers', hbefore, hrecv, hok, hafter⟩ :=
    udpServerRecv_spec h p maxLen
  · rw [hnone] at hs
    cases hs
  · rw [hrecv] at hs
    cases hs
    refine ⟨hok, fun p' => ?_⟩
    rw [queued, queued, hafter p']
    split_ifs with hp
    · rw [hp, hbefore]
      exact List.subset_cons_self e q
    · exact List.Subset.refl _

/-! ## The invariant -/

/-- The address a frame to `dstIp` is handed to: the destination itself on the local
    network, the gateway otherwise (udp.c lines 216–235, icmp.c lines 56–71). -/
def nextHopIp (host : Host) (dstIp : Ip) : Option Ip :=
  if ipv4OnLocalNetwork host dstIp then some dstIp else host.gateway

theorem nextHop_resolving {host : Host} {s : NetState} {ident : UInt16} {dstIp : Ip} {mac : Mac}
    (h : nextHop (resolving host s ident) dstIp none = some mac) :
    ∃ hop, nextHopIp host dstIp = some hop ∧ s.arpCache = some (hop, mac) := by
  have hlocal : ipv4OnLocalNetwork (resolving host s ident) dstIp = ipv4OnLocalNetwork host dstIp :=
    rfl
  rw [nextHop, hlocal] at h
  unfold nextHopIp
  split_ifs at h ⊢ with hl
  · exact ⟨dstIp, rfl, arpTryGetMac_eq_some.mp h⟩
  · obtain ⟨gateway, hgw, hmac⟩ := Option.bind_eq_some_iff.mp h
    exact ⟨gateway, hgw, arpTryGetMac_eq_some.mp hmac⟩

/-- `mac` is the hardware address of a host with the address `ip`. -/
def Owns (hosts : ι → Host) (ip : Ip) (mac : Mac) : Prop :=
  ∃ j, (hosts j).localIp = some ip ∧ (hosts j).mac = mac

/-- A frame that host `i` may send: an ARP packet says the truth about its sender, an IPv4
    packet carries the sender's address and goes to its next hop. -/
structure Honest (hosts : ι → Host) (i : ι) (frame : List UInt8) : Prop where
  arp : ∀ ip mac, arpSender frame = some (ip, mac) →
    (hosts i).localIp = some ip ∧ (hosts i).mac = mac
  ipv4 : be16At frame 12 = 0x0800 → (hosts i).localIp = some (ipAt frame 26) ∧
    ∃ hop, nextHopIp (hosts i) (ipAt frame 30) = some hop ∧ Owns hosts hop (macAt frame 0)

/-- The host accepts the datagram in the frame, and `e` is its entry in the queue of `p`. -/
def Carries (host : Host) (frame : List UInt8) (p : ℕ) (e : Received) : Prop :=
  AcceptsUdp host frame ∧ (carried frame).dstPort = p ∧ (carried frame).entry = e

/-- The cache, the frames and the queues of host `i` in state `t` say the truth. -/
structure HostOk (hosts : ι → Host) (s : ι → NetState) (i : ι) (t : NetState) : Prop where
  cache : ∀ ip mac, t.arpCache = some (ip, mac) → Owns hosts ip mac
  sent : ∀ frame ∈ t.sent, Honest hosts i frame
  servers : ServersOk t.servers
  queues : ∀ p, ∀ e ∈ queued t.servers p, ∃ j, ∃ frame ∈ (s j).sent, Carries (hosts i) frame p e

def Truthful (hosts : ι → Host) (s : ι → NetState) : Prop := ∀ i, HostOk hosts s i (s i)

variable {hosts : ι → Host} {s s' : ι → NetState}

theorem Truthful.boot (hosts : ι → Host) : Truthful hosts fun _ => NetState.boot := fun _ =>
  ⟨nofun, nofun, nofun, nofun⟩

theorem honest_arpFrame {i : ι} {ip : Ip} (hip : (hosts i).localIp = some ip) (dst : Mac)
    (opcode : ℕ) (targetMac : Mac) (targetIp : Ip) :
    Honest hosts i (arpFrame (hosts i) dst opcode ip targetMac targetIp) where
  arp := by
    intro ip' mac' h
    rw [arpSender_arpFrame rfl] at h
    cases h
    exact ⟨hip, rfl⟩
  ipv4 := by
    intro h
    rw [(isArp_arpFrame rfl).2] at h
    exact absurd h (by decide)

theorem honest_ipv4SendPacket {i : ι} {srcIp dstIp hop : Ip} {mac : Mac}
    (hip : (hosts i).localIp = some srcIp) (hhop : nextHopIp (hosts i) dstIp = some hop)
    (hmac : Owns hosts hop mac) {host : Host} (protocol : UInt8) (ident : ℕ)
    (payload : List UInt8) :
    Honest hosts i (ipv4SendPacket host srcIp dstIp mac protocol ident payload) where
  arp := by
    intro ip' mac' h
    have hno : ¬ IsArp (ipv4SendPacket host srcIp dstIp mac protocol ident payload) := by
      intro harp
      exact absurd (harp.2.symm.trans (ipv4SendPacket_fields rfl).1) (by decide)
    rw [arpSender, if_neg hno] at h
    cases h
  ipv4 := by
    intro _
    obtain ⟨-, hdst, hsrc, hip'⟩ := ipv4SendPacket_fields
      (rfl : ipv4SendPacket host srcIp dstIp mac protocol ident payload = _)
    rw [hdst, hsrc, hip']
    exact ⟨hip, hop, hhop, hmac⟩

variable [DecidableEq ι]

/-- Host `i` gets the state `t`, in which it has sent all it had. -/
theorem Truthful.update (h : Truthful hosts s) {i : ι} {t : NetState}
    (ht : HostOk hosts s i t) (hsent : (s i).sent ⊆ t.sent) :
    Truthful hosts (Function.update s i t) := by
  have hmono : ∀ k, (s k).sent ⊆ (Function.update s i t k).sent := by
    intro k
    by_cases hk : k = i
    · rwa [hk, Function.update_self]
    · rw [Function.update_of_ne hk]
      exact List.Subset.refl _
  intro j
  obtain ⟨hcache, hframes, hservers, hqueues⟩ : HostOk hosts s j (Function.update s i t j) := by
    by_cases hj : j = i
    · rwa [hj, Function.update_self]
    · rw [Function.update_of_ne hj]
      exact h j
  refine ⟨hcache, hframes, hservers, fun p e he => ?_⟩
  obtain ⟨k, frame, hframe, hrest⟩ := hqueues p e he
  exact ⟨k, frame, hmono k hframe, hrest⟩

/-- One host sends a frame it may send. -/
theorem Truthful.transmit (h : Truthful hosts s) {i : ι} {frame : List UInt8}
    (hframe : Honest hosts i frame) :
    Truthful hosts (Function.update s i ((s i).transmit frame)) := by
  unfold NetState.transmit
  split_ifs
  · rwa [Function.update_eq_self]
  · apply h.update _ (List.subset_cons_self ..)
    exact ⟨(h i).cache, List.forall_mem_cons.mpr ⟨hframe, (h i).sent⟩, (h i).servers,
      (h i).queues⟩

/-- A datagram of a frame of at most 1514 bytes fits its slot. -/
theorem length_carried_le {host : Host} {frame : List UInt8} (h : AcceptsUdp host frame)
    (hlen : frame.length ≤ 1514) : (carried frame).payload.length ≤ udpMaxDgram := by
  have h1 := h.total_le
  have h2 := h.dgram_le
  have h3 := h.ihl
  rw [length_carried h]
  simp only [ethHdrSize, ipv4HdrSize] at h1 h3
  simp only [udpHdrSize, udpMaxDgram]
  omega

/-- Processing a frame adds at most the datagram it carries to a queue. -/
theorem processFrame_queued {host : Host} {t t' : NetState} {frame frame' : List UInt8}
    (h : ServersOk t.servers) (hlen : frame.length ≤ 1514)
    (hs : processFrame host t frame = some (frame', t')) :
    ServersOk t'.servers ∧ ∀ p, ∀ e ∈ queued t'.servers p,
      e ∈ queued t.servers p ∨ Carries host frame p e := by
  obtain ⟨⟨frame₁, r⟩, heth, hs⟩ := Option.bind_eq_some_iff.mp hs
  obtain ⟨t₁, hhandle, hs⟩ := Option.bind_eq_some_iff.mp hs
  cases hs
  rw [(handle_effect hhandle).1]
  obtain ⟨r', hr', hyes, hno⟩ := ethProcessPacket_spec host frame
  cases hr'.symm.trans heth
  by_cases hacc : AcceptsUdp host frame
  · rw [hyes hacc]
    obtain ⟨hok, hpending⟩ := deliver_spec h (length_carried_le hacc hlen) (be16At_lt frame _)
    refine ⟨hok, fun p e he => ?_⟩
    rw [queued, hpending p] at he
    cases hq : pendingOn t.servers p with
    | none => simp [hq] at he
    | some q => grind [queued, Carries]
  · have hsame : deliver t.servers r = t.servers := by
      cases r with
      | udp d => exact absurd rfl (hno hacc d)
      | _ => rfl
    rw [hsame]
    exact ⟨h, fun _ _ he => .inl he⟩

/-- One host processes a frame that some host has sent. -/
theorem Truthful.receive (h : Truthful hosts s) {i j : ι} {frame : List UInt8}
    (hwire : frame ∈ (s j).sent) (hlen : frame.length ≤ 1514) {t : NetState}
    (hs : processFrame (hosts i) (s i) frame = some (frame, t)) :
    Truthful hosts (Function.update s i t) := by
  obtain ⟨t', ht', hcache, hsent⟩ := processFrame_spec (hosts i) (s i) frame
  cases ht'.symm.trans hs
  obtain ⟨hok, hqueued⟩ := processFrame_queued (h i).servers hlen hs
  refine h.update ⟨?_, ?_, hok, ?_⟩ (hsent ▸ List.subset_append_right ..)
  · intro ip mac hentry
    rw [hcache] at hentry
    cases hsender : arpSender frame with
    | none =>
      rw [hsender] at hentry
      exact (h i).cache ip mac hentry
    | some entry =>
      rw [hsender] at hentry
      cases hentry
      exact ⟨j, ((h j).sent frame hwire).arp ip mac hsender⟩
  · intro f hf
    rw [hsent] at hf
    obtain hans | hold := List.mem_append.mp hf
    · unfold arpAnswer at hans
      cases hip : (hosts i).localIp with
      | none =>
        rw [hip] at hans
        exact absurd hans List.not_mem_nil
      | some ip =>
        simp only [hip] at hans
        split_ifs at hans with hask
        · rw [List.mem_singleton.mp hans]
          exact honest_arpFrame hip ..
        · exact absurd hans List.not_mem_nil
    · exact (h i).sent f hold
  · intro p e he
    obtain hold | hnew := hqueued p e he
    · exact (h i).queues p e hold
    · exact ⟨j, frame, hwire, hnew⟩

theorem Truthful.step (h : Truthful hosts s) {e : NetEvent ι} (hwire : OnWire s e)
    (hs : networkStep hosts s e = some s') : Truthful hosts s' := by
  cases e with
  | request i target =>
    obtain ⟨srcIp, hip, hs⟩ := Option.bind_eq_some_iff.mp hs
    cases hs
    exact h.transmit (honest_arpFrame hip ..)
  | datagram i dstIp srcPort dstPort ident payload =>
    obtain ⟨srcIp, hip, hs⟩ := Option.bind_eq_some_iff.mp hs
    obtain ⟨⟨frame, host'⟩, hsend, hs⟩ := Option.bind_eq_some_iff.mp hs
    cases hs
    obtain ⟨mac, hmac, hsend⟩ := Option.bind_eq_some_iff.mp hsend
    split_ifs at hsend with hwrap
    cases hsend
    obtain ⟨hop, hhop, hentry⟩ := nextHop_resolving hmac
    exact h.transmit (honest_ipv4SendPacket hip hhop ((h i).cache hop mac hentry) ..)
  | echo i dstIp identifier sequence =>
    obtain ⟨srcIp, hip, hs⟩ := Option.bind_eq_some_iff.mp hs
    obtain ⟨mac, hmac, hs⟩ := Option.bind_eq_some_iff.mp hs
    cases hs
    obtain ⟨hop, hhop, hentry⟩ := nextHop_resolving hmac
    exact h.transmit (honest_ipv4SendPacket hip hhop ((h i).cache hop mac hentry) ..)
  | receive i frame =>
    obtain ⟨hlen, j, hj⟩ := hwire
    obtain ⟨t, ht, -⟩ := processFrame_spec (hosts i) (s i) frame
    obtain ⟨⟨frame', t'⟩, hprocess, hs⟩ := Option.bind_eq_some_iff.mp hs
    cases ht.symm.trans hprocess
    cases hs
    exact h.receive hj hlen ht
  | bind i port =>
    cases hs
    obtain ⟨hok, hsame⟩ := queued_bind (h i).servers port
    refine h.update ⟨(h i).cache, (h i).sent, hok, fun p e he => ?_⟩ (List.Subset.refl _)
    rw [hsame] at he
    exact (h i).queues p e he
  | recv i port maxLen =>
    obtain ⟨r, hrecv, hs⟩ := Option.bind_eq_some_iff.mp hs
    cases hs
    obtain ⟨hok, hsub⟩ := queued_recv (h i).servers hrecv
    exact h.update ⟨(h i).cache, (h i).sent, hok, fun p e he =>
      (h i).queues p e (hsub p he)⟩ (List.Subset.refl _)

theorem truthful_of_run {es : List (NetEvent ι)}
    (h : Run (restrict (Steps (networkStep hosts)) OnWire) (fun _ => NetState.boot) es s) :
    Truthful hosts s :=
  h.invariant (Truthful.boot hosts) fun _ _ _ hu hs => hu.step hs.1 hs.2

/-- **Frames go to their next hop.** Any number of hosts, each with any configuration, send
    and receive in any order from `net_init` on; frames may be lost, delayed, repeated and
    delivered to anyone. In every state reached, a cache entry gives the hardware address of
    a host that has the address, and every IPv4 frame ever sent carries its sender's
    address and is addressed to a host that has the address of the next hop. -/
theorem frames_go_to_their_next_hop {es : List (NetEvent ι)}
    (h : Run (restrict (Steps (networkStep hosts)) OnWire) (fun _ => NetState.boot) es s) :
    (∀ i ip mac, arpTryGetMac (s i).arpCache ip = some mac → Owns hosts ip mac) ∧
      ∀ i, ∀ frame ∈ (s i).sent, be16At frame 12 = 0x0800 →
        (hosts i).localIp = some (ipAt frame 26) ∧
        ∃ hop, nextHopIp (hosts i) (ipAt frame 30) = some hop ∧ Owns hosts hop (macAt frame 0) := by
  have htrue := truthful_of_run h
  refine ⟨?_, fun i frame hframe => ((htrue i).sent frame hframe).ipv4⟩
  intro i ip mac hget
  exact (htrue i).cache ip mac (arpTryGetMac_eq_some.mp hget)

/-- **Datagrams come from where they say.** In every state the network reaches, a datagram
    that is queued at a host for port `p` is carried, unchanged, by a frame that the host
    with its source address has sent to that port and that the receiving host accepts. -/
theorem queued_datagrams_were_sent {es : List (NetEvent ι)}
    (h : Run (restrict (Steps (networkStep hosts)) OnWire) (fun _ => NetState.boot) es s)
    {i : ι} {p : ℕ} {e : Received} (he : e ∈ queued (s i).servers p) :
    ∃ j, (hosts j).localIp = some e.1 ∧ ∃ frame ∈ (s j).sent, Carries (hosts i) frame p e := by
  have htrue := truthful_of_run h
  obtain ⟨j, frame, hframe, hacc, hport, rfl⟩ := (htrue i).queues p e he
  exact ⟨j, (((htrue j).sent frame hframe).ipv4 hacc.ethertype).1, frame, hframe, hacc, hport, rfl⟩

/-- Two hosts with neighbouring addresses. -/
def neighbours (i : Bool) : Host :=
  if i then netHost else netInitHost ⟨2, 0, 0, 0, 0, 2⟩ ⟨10, 0, 2, 16⟩

instance (s : Bool → NetState) : DecidablePred (OnWire s) := fun e =>
  match e with
  | .receive _ frame => inferInstanceAs (Decidable (_ ∧ ∃ j, frame ∈ (s j).sent))
  | .request .. | .datagram .. | .echo .. | .bind .. | .recv .. => .isTrue trivial

/-- One asks for the other, is answered and sends a datagram, which arrives. -/
def askAndSend : List (NetEvent Bool) :=
  [.request true ⟨10, 0, 2, 16⟩,
    .receive false (arpSendRequest (neighbours true) ⟨10, 0, 2, 15⟩ ⟨10, 0, 2, 16⟩),
    .receive true (arpFrame (neighbours false) ⟨2, 0, 0, 0, 0, 1⟩ 2 ⟨10, 0, 2, 16⟩
      ⟨2, 0, 0, 0, 0, 1⟩ ⟨10, 0, 2, 15⟩),
    .bind false 7, .datagram true ⟨10, 0, 2, 16⟩ 5000 7 1 [0x68],
    .receive false (ipv4SendPacket (neighbours true) ⟨10, 0, 2, 15⟩ ⟨10, 0, 2, 16⟩
      ⟨2, 0, 0, 0, 0, 2⟩ ipv4ProtocolUdp 1
      (udpSegment ⟨10, 0, 2, 15⟩ ⟨10, 0, 2, 16⟩ 5000 7 [0x68]))]

theorem askAndSend_run : ∃ s : Bool → NetState,
    Run (restrict (Steps (networkStep neighbours)) OnWire) (fun _ => NetState.boot) askAndSend s ∧
      queued (s false).servers 7 ≠ [] ∧
      ∃ frame ∈ (s true).sent, be16At frame 12 = 0x0800 ∧ ipAt frame 30 = ⟨10, 0, 2, 16⟩ :=
  exists_run_restrict (by decide +kernel)

theorem neighbours_next_hop : ∃ (s : Bool → NetState) (frame : List UInt8),
    frame ∈ (s true).sent ∧ Owns neighbours ⟨10, 0, 2, 16⟩ (macAt frame 0) := by
  obtain ⟨s, hrun, -, frame, hframe, htype, hdst⟩ := askAndSend_run
  obtain ⟨-, hop, hhop, howns⟩ := (frames_go_to_their_next_hop hrun).2 true frame hframe htype
  rw [hdst] at hhop
  have hself : nextHopIp (neighbours true) ⟨10, 0, 2, 16⟩ = some ⟨10, 0, 2, 16⟩ := by decide
  cases hself.symm.trans hhop
  exact ⟨s, frame, hframe, howns⟩

theorem neighbours_datagram : ∃ (s : Bool → NetState) (e : Received),
    e ∈ queued (s false).servers 7 ∧
      ∃ j, ∃ frame ∈ (s j).sent, Carries (neighbours false) frame 7 e := by
  obtain ⟨s, hrun, hne, -⟩ := askAndSend_run
  obtain ⟨e, he⟩ := List.exists_mem_of_ne_nil _ hne
  obtain ⟨j, -, hframe⟩ := queued_datagrams_were_sent hrun he
  exact ⟨s, e, he, j, hframe⟩

end Mboot.Net
