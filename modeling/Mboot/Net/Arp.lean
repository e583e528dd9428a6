import Mboot.Common.Run
import Mboot.Net.Receive
import Mboot.Net.RoundTrip

/-!
# Address resolution

The rest of `stage2/net/arp.c`: `arp_send_request`, `arp_try_get_mac` and the polling
loop of `arp_resolve`, on top of `arp_process_packet` in `Mboot.Net.Receive`.

* What arrives is a parameter: `arrivals j` are the frames that `e1k_drain_rx`, or an
  interrupt of the adapter, processes in round `j` of the loop, counted from 1, and
  `arrivals 0` those an interrupt processes before. Frames processed during the `hlt`
  after each million rounds belong to the round before it.
* Whether interrupts are enabled is a parameter too, as the `hlt` ends only then: the
  `read` of a socket that resolves an address runs with interrupts disabled.

Main results:

* `arp_resolve_finds_first`: with interrupts enabled `arp_resolve` returns, with the
  hardware address of the target's entry in the first round that finds one; with interrupts
  disabled it does not return unless the first million rounds find one. The cache holds
  the sender of the last ARP packet only, so an answer that another packet follows in the
  same round is lost.
* `arp_handshake`: the frame that the owner of the target address sends in answer to the
  request, arriving in any round but the last with no other ARP packet on the way,
  resolves the address.
-/

namespace Mboot.Net

deriving instance DecidableEq for Mac

/-! ## Frames and packets -/

/-- The frame both `arp_send_request` and `arp_send_reply` build: 42 bytes, padded
    to 60. -/
def arpFrame (host : Host) (dst : Mac) (opcode : ℕ) (senderIp : Ip) (targetMac : Mac)
    (targetIp : Ip) : List UInt8 :=
  let packet := dst.bytes ++ host.mac.bytes ++ be16 0x0806 ++
    be16 1 ++ be16 0x0800 ++ [6, 4] ++ be16 opcode ++ host.mac.bytes ++ senderIp.bytes ++
    targetMac.bytes ++ targetIp.bytes
  packet ++ List.replicate (60 - packet.length) 0

/-- `arp_send_request` (arp.c lines 57–95): the frame handed to `e1k_send`. -/
def arpSendRequest (host : Host) (srcIp targetIp : Ip) : List UInt8 :=
  arpFrame host ⟨0xFF, 0xFF, 0xFF, 0xFF, 0xFF, 0xFF⟩ 1 srcIp ⟨0, 0, 0, 0, 0, 0⟩ targetIp

theorem arpSendReply_eq (host : Host) (mac : Mac) (senderIp targetIp : Ip) :
    arpSendReply host mac senderIp targetIp = arpFrame host mac 2 senderIp mac targetIp := rfl

/-- The frame carries an ARP packet. -/
def IsArp (frame : List UInt8) : Prop :=
  ethHdrSize + arpPktSize ≤ frame.length ∧ be16At frame 12 = 0x0806

instance (frame : List UInt8) : Decidable (IsArp frame) := inferInstanceAs (Decidable (_ ∧ _))

/-- The sender of the ARP packet in a frame, which `arp_update_cache` stores. -/
def arpSender (frame : List UInt8) : Option (Ip × Mac) :=
  if IsArp frame then some (ipAt frame 28, macAt frame 22) else none

/-- The frame asks for the address `ip`. -/
def AsksFor (ip : Ip) (frame : List UInt8) : Prop :=
  IsArp frame ∧ be16At frame 20 = 1 ∧ ipAt frame 38 = ip

instance (ip : Ip) (frame : List UInt8) : Decidable (AsksFor ip frame) :=
  inferInstanceAs (Decidable (_ ∧ _))

/-- What a host sends in answer to a frame. -/
def arpAnswer (host : Host) (frame : List UInt8) : List (List UInt8) :=
  match host.localIp with
  | none => []
  | some ip =>
    if AsksFor ip frame then [arpFrame host (macAt frame 22) 2 ip (macAt frame 22) (ipAt frame 28)]
    else []

/-! ## What a frame does to the cache -/

/-- Of the handlers only UDP's touches the queues, and only ARP's the cache and the frames
    sent. -/
theorem handle_effect {host : Host} {s s' : NetState} {frame : List UInt8} {r : Rx}
    (h : handle host s frame r = some s') : s'.servers = deliver s.servers r ∧
      ((∀ data len, r ≠ .arp data len) → s'.arpCache = s.arpCache ∧ s'.sent = s.sent) := by
  cases r with
  | dropped | udp d =>
    cases h
    exact ⟨rfl, fun _ => ⟨rfl, rfl⟩⟩
  | _ =>
    simp only [handle, arpProcessPacket, icmpProcessPacket, Option.bind_eq_bind, Option.pure_def,
      ite_eq_iff, Option.bind_eq_some_iff, Option.some_inj] at h
    grind [deliver]

theorem arpProcessPacket_eq (host : Host) (s : NetState) {frame : List UInt8} (h : IsArp frame) :
    arpProcessPacket host s frame ethHdrSize (frame.length - ethHdrSize) =
      some { s with arpCache := some (ipAt frame 28, macAt frame 22),
                    sent := arpAnswer host frame ++ s.sent } := by
  have hlen := h.1
  simp only [ethHdrSize, arpPktSize] at hlen
  unfold arpProcessPacket
  rw [if_neg (by simp only [ethHdrSize, arpPktSize]; omega),
    readBe16_eq (by simp only [ethHdrSize]; omega),
    readMac_eq (by simp only [ethHdrSize]; omega),
    readIp_eq (by simp only [ethHdrSize]; omega), readIp_eq (by simp only [ethHdrSize]; omega)]
  simp only [Option.bind_eq_bind, Option.bind_some, Option.pure_def, ethHdrSize, Nat.reduceAdd,
    arpSendReply_eq]
  unfold arpAnswer ipv4IsLocalAddress
  cases hip : host.localIp with
  | none => simp
  | some ip =>
    by_cases hask : be16At frame 20 = 1 ∧ ip = ipAt frame 38
    · obtain ⟨hop, rfl⟩ := hask
      simp [AsksFor, h, hop]
    · have hno : ¬ AsksFor ip frame := fun ⟨_, hop, htarget⟩ => hask ⟨hop, htarget.symm⟩
      dsimp only
      rw [if_neg (by simpa using hask), if_neg hno, List.nil_append]

-- No way through either function returns to the ARP handler.
theorem udpProcessPacket_ne_arp {frame frame' : List UInt8} {ipv4 udpData udpLen data len : ℕ} :
    udpProcessPacket frame ipv4 udpData udpLen ≠ some (frame', .arp data len) := by
  unfold udpProcessPacket
  intro h
  simp only [Option.bind_eq_bind, Option.pure_def, Option.bind_eq_some_iff, ite_eq_iff,
    Option.some_inj, Prod.mk.injEq, reduceCtorEq, and_false, exists_false, or_self] at h

theorem ipv4ProcessPacket_ne_arp {host : Host} {frame frame' : List UInt8}
    {ipv4 ipv4Len data len : ℕ} :
    ipv4ProcessPacket host frame ipv4 ipv4Len ≠ some (frame', .arp data len) := by
  unfold ipv4ProcessPacket
  intro h
  simp only [Option.bind_eq_bind, Option.pure_def, Option.bind_eq_some_iff, ite_eq_iff,
    Option.some_inj, Prod.mk.injEq, reduceCtorEq, and_false, exists_false, or_self,
    udpProcessPacket_ne_arp] at h

/-- Every frame is processed: an ARP packet's sender takes the place of the cached entry
    and a question for the host's own address is answered, other frames do neither. -/
theorem processFrame_spec (host : Host) (s : NetState) (frame : List UInt8) :
    ∃ s', processFrame host s frame = some (frame, s') ∧
      s'.arpCache = (arpSender frame).or s.arpCache ∧
      s'.sent = arpAnswer host frame ++ s.sent := by
  obtain ⟨r, hr, -⟩ := ethProcessPacket_spec host frame
  obtain ⟨s', hs'⟩ := handle_reads host s (ethProcessPacket_inside hr)
  refine ⟨s', ?_, ?_⟩
  · unfold processFrame
    rw [hr]
    simp only [Option.bind_eq_bind, Option.bind_some, hs', Option.pure_def]
  have hother : ¬ IsArp frame → arpSender frame = none ∧ arpAnswer host frame = [] := by
    intro hno
    refine ⟨if_neg hno, ?_⟩
    unfold arpAnswer
    cases host.localIp with
    | none => rfl
    | some ip => exact if_neg fun hask => hno hask.1
  unfold ethProcessPacket at hr
  split_ifs at hr with hshort
  · cases hr
    cases hs'
    obtain ⟨h1, h2⟩ := hother fun h => by have := h.1; omega
    rw [h1, h2]
    exact ⟨rfl, rfl⟩
  rw [readBe16_eq (by simp only [ethHdrSize] at hshort; omega)] at hr
  simp only [Option.bind_eq_bind, Option.bind_some, Option.pure_def] at hr
  by_cases hisArp : IsArp frame
  · rw [if_pos hisArp.2] at hr
    cases hr
    change arpProcessPacket host s frame ethHdrSize _ = some s' at hs'
    rw [arpProcessPacket_eq host s hisArp] at hs'
    cases hs'
    rw [arpSender, if_pos hisArp]
    exact ⟨rfl, rfl⟩
  · obtain ⟨h1, h2⟩ := hother hisArp
    rw [h1, h2]
    show s'.arpCache = s.arpCache ∧ s'.sent = s.sent
    split_ifs at hr with harp hipv4
    · -- an ARP frame that is too short for a packet
      cases hr
      change arpProcessPacket host s frame ethHdrSize _ = some s' at hs'
      have hlen : frame.length - ethHdrSize < arpPktSize := by
        by_contra hge
        exact hisArp ⟨by omega, harp⟩
      rw [arpProcessPacket, if_pos hlen] at hs'
      cases hs'
      exact ⟨rfl, rfl⟩
    · refine (handle_effect hs').2 fun data len heq => ?_
      rw [heq] at hr
      exact ipv4ProcessPacket_ne_arp hr
    · cases hr
      exact (handle_effect hs').2 fun _ _ => Rx.noConfusion

/-! ## Resolution -/

/-- `arp_try_get_mac` (lines 131–137). -/
def arpTryGetMac (cache : Option (Ip × Mac)) (targetIp : Ip) : Option Mac :=
  match cache with
  | none => none
  | some (ip, mac) => if ip = targetIp then some mac else none

theorem arpTryGetMac_eq_some {cache : Option (Ip × Mac)} {ip : Ip} {mac : Mac} :
    arpTryGetMac cache ip = some mac ↔ cache = some (ip, mac) := by
  unfold arpTryGetMac
  cases cache with
  | none => simp
  | some entry =>
    obtain ⟨ip', mac'⟩ := entry
    by_cases heq : ip' = ip <;> simp [heq]

/-- One call of `e1k_drain_rx` that finds `frames` in the ring. -/
def receiveAll (host : Host) (s : NetState) (frames : List (List UInt8)) : Option NetState :=
  frames.foldlM (fun s frame => (processFrame host s frame).map Prod.snd) s

/-- The rounds of the inner loop of `arp_resolve`. -/
abbrev pollRounds : ℕ := 1000000

/-- The inner loop of `arp_resolve` (lines 154–159) with `n` rounds to go, from round `j` on. -/
def arpPoll (host : Host) (targetIp : Ip) (arrivals : ℕ → List (List UInt8)) :
    ℕ → ℕ → NetState → Option (Option Mac × NetState)
  | 0, _, s => some (none, s)
  | n + 1, j, s =>
    match arpTryGetMac s.arpCache targetIp with
    | some mac => some (some mac, s)
    | none => do
      let s ← receiveAll host s (arrivals j)
      arpPoll host targetIp arrivals n (j + 1) s

/-- The outer loop (lines 153–161) with `k` passes to go; `none` when the `hlt` never ends. -/
def arpWait (interrupts : Bool) (host : Host) (targetIp : Ip) (arrivals : ℕ → List (List UInt8)) :
    ℕ → ℕ → NetState → Option (Option Mac × NetState)
  | 0, _, s => some (none, s)
  | k + 1, j, s => do
    let (found, s) ← arpPoll host targetIp arrivals pollRounds j s
    if found.isSome then return (found, s)
    if interrupts then arpWait interrupts host targetIp arrivals k (j + pollRounds) s else none

/-- `arp_resolve` (lines 139–166): the address found, or `none` for the result 0. -/
def arpResolve (interrupts : Bool) (host : Host) (s : NetState) (targetIp : Ip)
    (arrivals : ℕ → List (List UInt8)) : Option (Option Mac × NetState) :=
  match arpTryGetMac s.arpCache targetIp with
  | some mac => some (some mac, s)
  | none =>
    match host.localIp with
    | none => some (none, s)
    | some srcIp => do
      let s := { s with sent := arpSendRequest host srcIp targetIp :: s.sent }
      let s ← receiveAll host s (arrivals 0)
      arpWait interrupts host targetIp arrivals 8 1 s

/-- The cache after some frames: the sender of the last ARP packet among them. -/
def cacheAfter (cache : Option (Ip × Mac)) (frames : List (List UInt8)) : Option (Ip × Mac) :=
  frames.foldl (fun cache frame => (arpSender frame).or cache) cache

theorem receiveAll_spec (host : Host) (s : NetState) (frames : List (List UInt8)) :
    ∃ s', receiveAll host s frames = some s' ∧ s'.arpCache = cacheAfter s.arpCache frames ∧
      ∃ more, s'.sent = more ++ s.sent := by
  apply Common.simulates_foldlM
    (R := fun (s' : NetState) cache => s'.arpCache = cache ∧ ∃ more, s'.sent = more ++ s.sent) _
    ⟨rfl, [], rfl⟩
  rintro frame - s₁ cache ⟨rfl, more, hsent⟩
  obtain ⟨s₂, hs₂, hcache, hsent₂⟩ := processFrame_spec host s₁ frame
  refine ⟨s₂, by rw [hs₂]; rfl, hcache, arpAnswer host frame ++ more, ?_⟩
  rw [hsent₂, hsent, List.append_assoc]

/-- The cache that round `j` finds. -/
def cacheAt (cache : Option (Ip × Mac)) (arrivals : ℕ → List (List UInt8)) : ℕ → Option (Ip × Mac)
  | 0 => cache
  | j + 1 => cacheAfter (cacheAt cache arrivals j) (arrivals j)

/-- What the first of `n` rounds from round `j` on that finds an entry for `ip` finds. -/
def firstFound (cache : Option (Ip × Mac)) (arrivals : ℕ → List (List UInt8)) (ip : Ip)
    (j n : ℕ) : Option Mac :=
  (List.range' j n).findSome? fun i => arpTryGetMac (cacheAt cache arrivals i) ip

section Resolve

variable {cache : Option (Ip × Mac)} {arrivals : ℕ → List (List UInt8)} {host : Host} {ip : Ip}
  {j : ℕ} {s : NetState}

theorem firstFound_succ (n : ℕ) : firstFound cache arrivals ip j (n + 1) =
    (arpTryGetMac (cacheAt cache arrivals j) ip).or (firstFound cache arrivals ip (j + 1) n) := by
  rw [firstFound, List.range'_succ, List.findSome?_cons]
  cases arpTryGetMac (cacheAt cache arrivals j) ip <;> rfl

theorem firstFound_add (m n : ℕ) : firstFound cache arrivals ip j (m + n) =
    (firstFound cache arrivals ip j m).or (firstFound cache arrivals ip (j + m) n) := by
  rw [firstFound, ← List.range'_append_1, List.findSome?_append]
  rfl

theorem arpPoll_spec (host : Host) (ip : Ip) (n : ℕ) (hs : s.arpCache = cacheAt cache arrivals j) :
    ∃ s', arpPoll host ip arrivals n j s = some (firstFound cache arrivals ip j n, s') ∧
      (∃ more, s'.sent = more ++ s.sent) ∧
      (firstFound cache arrivals ip j n = none → s'.arpCache = cacheAt cache arrivals (j + n)) := by
  induction n generalizing j s with
  | zero => exact ⟨s, rfl, ⟨[], rfl⟩, fun _ => hs⟩
  | succ n ih =>
    rw [arpPoll, firstFound_succ, ← hs]
    cases arpTryGetMac s.arpCache ip with
    | some mac => exact ⟨s, rfl, ⟨[], rfl⟩, nofun⟩
    | none =>
      obtain ⟨s₁, hs₁, hcache, more₁, hmore₁⟩ := receiveAll_spec host s (arrivals j)
      obtain ⟨s', hs', ⟨more, hmore⟩, hend⟩ := ih (s := s₁) (j := j + 1)
        (by rw [hcache, hs, cacheAt])
      refine ⟨s', ?_, ⟨more ++ more₁, by rw [hmore, hmore₁, List.append_assoc]⟩, fun hnone => ?_⟩
      · simp only [hs₁, Option.bind_eq_bind, Option.bind_some, hs', Option.none_or]
      · rw [hend hnone, Nat.add_assoc, Nat.add_comm 1 n]

/-- The passes of the outer loop, when each `hlt` ends. -/
theorem arpWait_spec (host : Host) (ip : Ip) (k : ℕ) (hs : s.arpCache = cacheAt cache arrivals j) :
    ∃ s', arpWait true host ip arrivals k j s =
        some (firstFound cache arrivals ip j (pollRounds * k), s') ∧
      ∃ more, s'.sent = more ++ s.sent := by
  induction k generalizing j s with
  | zero => exact ⟨s, rfl, [], rfl⟩
  | succ k ih =>
    obtain ⟨s₁, hs₁, ⟨more₁, hmore₁⟩, hend⟩ := arpPoll_spec host ip pollRounds hs
    rw [arpWait, hs₁, Nat.mul_succ, Nat.add_comm (pollRounds * k), firstFound_add]
    cases hfound : firstFound cache arrivals ip j pollRounds with
    | some mac => exact ⟨s₁, rfl, more₁, hmore₁⟩
    | none =>
      obtain ⟨s', hs', more, hmore⟩ := ih (hend hfound)
      exact ⟨s', hs', more ++ more₁, by rw [hmore, hmore₁, List.append_assoc]⟩

/-- `arp_resolve` up to its loops. -/
theorem arpResolve_wait (arrivals : ℕ → List (List UInt8)) {srcIp : Ip}
    (hget : arpTryGetMac s.arpCache ip = none) (hip : host.localIp = some srcIp) :
    ∃ s₁, s₁.arpCache = cacheAt s.arpCache arrivals 1 ∧
      (∃ more, s₁.sent = more ++ arpSendRequest host srcIp ip :: s.sent) ∧
      ∀ interrupts, arpResolve interrupts host s ip arrivals =
        arpWait interrupts host ip arrivals 8 1 s₁ := by
  obtain ⟨s₁, hs₁, hcache, hmore⟩ := receiveAll_spec host
    { s with sent := arpSendRequest host srcIp ip :: s.sent } (arrivals 0)
  refine ⟨s₁, hcache, hmore, fun interrupts => ?_⟩
  simp only [arpResolve, hget, hip, hs₁, Option.bind_eq_bind, Option.bind_some]

/-- **What `arp_resolve` finds.** On every host, in every state and for all frames that
    arrive while it polls, `arp_resolve` returns if interrupts are enabled; the result is
    what `arp_try_get_mac` finds in the cache in the first round that finds anything. A
    host without an address of its own looks once. With interrupts disabled it stops for
    ever at the first `hlt`, unless it has found something before. -/
theorem arp_resolve_finds_first (host : Host) (s : NetState) (ip : Ip)
    (arrivals : ℕ → List (List UInt8)) :
    (∃ s', arpResolve true host s ip arrivals = some (firstFound s.arpCache arrivals ip 0
      (if host.localIp = none then 1 else pollRounds * 8 + 1), s')) ∧
    (arpResolve false host s ip arrivals = none ↔
      host.localIp ≠ none ∧ firstFound s.arpCache arrivals ip 0 (pollRounds + 1) = none) := by
  cases hget : arpTryGetMac s.arpCache ip with
  | some mac =>
    have hret : ∀ interrupts, arpResolve interrupts host s ip arrivals = some (some mac, s) :=
      fun _ => by rw [arpResolve, hget]
    have hfound : ∀ n, firstFound s.arpCache arrivals ip 0 (n + 1) = some mac := fun n => by
      rw [firstFound_succ, cacheAt, hget, Option.some_or]
    refine ⟨⟨s, ?_⟩, iff_of_false (by simp [hret]) fun h => ?_⟩
    · rw [hret]
      split_ifs <;> rw [hfound]
    · rw [hfound] at h
      cases h.2
  | none =>
    have hlater : ∀ n, firstFound s.arpCache arrivals ip 0 (n + 1) =
        firstFound s.arpCache arrivals ip 1 n := fun n => by
      rw [firstFound_succ, cacheAt, hget, Option.none_or]
    cases hip : host.localIp with
    | none =>
      have hret : ∀ interrupts, arpResolve interrupts host s ip arrivals = some (none, s) :=
        fun _ => by rw [arpResolve, hget, hip]
      refine ⟨⟨s, ?_⟩, iff_of_false (by simp [hret]) fun h => h.1 rfl⟩
      rw [hret, if_pos rfl, hlater]
      rfl
    | some srcIp =>
      obtain ⟨s₁, hcache, -, hwait⟩ := arpResolve_wait arrivals hget hip
      rw [if_neg (Option.some_ne_none _), hlater, hlater, hwait, hwait]
      obtain ⟨s', hs', -⟩ := arpWait_spec host ip 8 hcache
      obtain ⟨s₂, hs₂, -⟩ := arpPoll_spec host ip pollRounds hcache
      refine ⟨⟨s', hs'⟩, ?_⟩
      rw [arpWait, hs₂]
      cases firstFound s.arpCache arrivals ip 1 pollRounds with
      | some mac => exact iff_of_false nofun fun h => nomatch h.2
      | none => exact iff_of_true rfl ⟨Option.some_ne_none _, rfl⟩

end Resolve

/-! ## Request and answer -/

section Frames

variable {host : Host} {dst : Mac} {opcode : ℕ} {senderIp : Ip} {targetMac : Mac} {targetIp : Ip}
  {frame : List UInt8} (h : frame = arpFrame host dst opcode senderIp targetMac targetIp)
include h

/-- The fields of the packet in the frame. -/
theorem arpFrame_fields :
    be16At frame 12 = 0x0806 ∧ (opcode < 256 → be16At frame 20 = opcode) ∧
      macAt frame 22 = host.mac ∧ ipAt frame 28 = senderIp ∧ ipAt frame 38 = targetIp := by
  subst h
  -- the frame byte by byte, whatever the padding is
  simp only [arpFrame, Mac.bytes, Ip.bytes, be16, List.cons_append, List.nil_append]
  generalize List.replicate _ (0 : UInt8) = padding
  exact ⟨be16_value (show 0x0806 < 2 ^ 16 by decide), fun h => be16_value (by omega), rfl, rfl, rfl⟩

theorem isArp_arpFrame : IsArp frame := by
  refine ⟨?_, (arpFrame_fields h).1⟩
  rw [h, arpFrame, List.length_append]
  exact Nat.le_add_right 42 _

theorem arpSender_arpFrame : arpSender frame = some (senderIp, host.mac) := by
  obtain ⟨-, -, hmac, hip, -⟩ := arpFrame_fields h
  rw [arpSender, if_pos (isArp_arpFrame h), hip, hmac]

end Frames

theorem arpAnswer_arpSendRequest {asker owner : Host} {a b : Ip} (hb : owner.localIp = some b) :
    arpAnswer owner (arpSendRequest asker a b) =
      [arpFrame owner asker.mac 2 b asker.mac a] := by
  have hframe : arpSendRequest asker a b = arpFrame asker _ 1 a _ b := rfl
  obtain ⟨-, hop, hmac, hip, htarget⟩ := arpFrame_fields hframe
  rw [arpAnswer, hb]
  dsimp only
  rw [if_pos ⟨isArp_arpFrame hframe, hop (by decide), htarget⟩, hmac, hip]

/-- Frames that carry no ARP packet leave the cache alone. -/
theorem cacheAfter_of_not_arp {frames : List (List UInt8)} (h : ∀ frame ∈ frames, ¬ IsArp frame)
    (cache : Option (Ip × Mac)) : cacheAfter cache frames = cache := by
  induction frames with
  | nil => rfl
  | cons frame frames ih =>
    obtain ⟨hframe, hframes⟩ := List.forall_mem_cons.mp h
    have hkeep : (arpSender frame).or cache = cache := by
      rw [arpSender, if_neg hframe]
      rfl
    rw [cacheAfter, List.foldl_cons, hkeep]
    exact ih hframes

/-- **Request and answer.** The owner of the address `b` answers the request of `asker`
    with one frame and learns the asker's address. When that frame arrives in any round of
    `arp_resolve` but the last, no ARP packet follows it in that round and no earlier
    round has found an entry for `b`, then `arp_resolve`, called with interrupts enabled,
    returns the owner's hardware address, and the request is the first frame it has sent. -/
theorem arp_handshake (asker owner : Host) {a b : Ip} (ha : asker.localIp = some a)
    (hb : owner.localIp = some b) (s t : NetState) :
    ∃ t' answer, processFrame owner t (arpSendRequest asker a b) =
        some (arpSendRequest asker a b, t') ∧
      t'.sent = answer :: t.sent ∧ t'.arpCache = some (a, asker.mac) ∧
      ∀ arrivals k before after, k < pollRounds * 8 → arrivals k = before ++ answer :: after →
        (∀ frame ∈ after, ¬ IsArp frame) →
        (∀ j ≤ k, ∀ mac, cacheAt s.arpCache arrivals j ≠ some (b, mac)) →
        ∃ s' more, arpResolve true asker s b arrivals = some (some owner.mac, s') ∧
          s'.sent = more ++ arpSendRequest asker a b :: s.sent := by
  obtain ⟨t', ht', hcache, hsent⟩ := processFrame_spec owner t (arpSendRequest asker a b)
  rw [arpAnswer_arpSendRequest hb] at hsent
  rw [arpSendRequest, arpSender_arpFrame rfl] at hcache
  refine ⟨t', _, ht', hsent, hcache, ?_⟩
  intro arrivals k before after hk harrive hafter hnone
  have hmiss : ∀ j ≤ k, arpTryGetMac (cacheAt s.arpCache arrivals j) b = none := by
    intro j hj
    rw [Option.eq_none_iff_forall_not_mem]
    intro mac hmac
    exact hnone j hj mac (arpTryGetMac_eq_some.mp hmac)
  have hfound : cacheAt s.arpCache arrivals (k + 1) = some (b, owner.mac) := by
    rw [cacheAt, harrive, cacheAfter, List.foldl_append, List.foldl_cons, arpSender_arpFrame rfl]
    exact cacheAfter_of_not_arp hafter _
  have hget := hmiss 0 (Nat.zero_le k)
  obtain ⟨s₁, hcache₁, ⟨more₁, hmore₁⟩, hwait⟩ := arpResolve_wait arrivals hget ha
  obtain ⟨s', hs', more, hmore⟩ := arpWait_spec asker b 8 hcache₁
  -- `k` rounds that find nothing, and one that finds the entry
  have hbefore : firstFound s.arpCache arrivals b 1 k = none :=
    List.findSome?_eq_none_iff.mpr fun j hj =>
      hmiss j (by have := List.mem_range'_1.mp hj; omega)
  obtain ⟨n, hn⟩ := Nat.exists_eq_add_of_lt hk
  rw [hn, Nat.add_assoc, firstFound_add, hbefore, firstFound_succ, Nat.add_comm 1 k,
    arpTryGetMac_eq_some.mpr hfound, Option.some_or, Option.none_or] at hs'
  exact ⟨s', more ++ more₁, (hwait true).trans hs', by rw [hmore, hmore₁, List.append_assoc]⟩

/-- The network code after `net_init`: an empty cache, no sockets and no servers. -/
def NetState.boot : NetState := ⟨none, fun _ => Socket.zero, fun _ => none, []⟩

/-- A host with the hardware address `mac` and the configuration of `net_init` (net.c
    lines 8–17), but for its address. -/
def netInitHost (mac : Mac) (ip : Ip) : Host :=
  { mac, localIp := some ip, netmask := ⟨255, 255, 255, 0⟩, gateway := some ⟨10, 0, 2, 2⟩,
    arpResolve := fun _ => none, identification := 1 }

/-- The host with the address that `net_init` sets. -/
def netHost : Host := netInitHost ⟨2, 0, 0, 0, 0, 1⟩ ⟨10, 0, 2, 15⟩

/-- The gateway is found when its answer arrives in the first round. -/
theorem gateway_resolves : ∃ frame t' answer s',
    processFrame (netInitHost ⟨2, 0, 0, 0, 0, 2⟩ ⟨10, 0, 2, 2⟩) NetState.boot
      (arpSendRequest netHost ⟨10, 0, 2, 15⟩ ⟨10, 0, 2, 2⟩) = some (frame, t') ∧
    t'.sent = [answer] ∧ arpResolve true netHost NetState.boot ⟨10, 0, 2, 2⟩
      (fun j => if j = 1 then [answer] else []) = some (some ⟨2, 0, 0, 0, 0, 2⟩, s') := by
  obtain ⟨t', answer, ht', hsent, -, hresolve⟩ := arp_handshake netHost
    (netInitHost ⟨2, 0, 0, 0, 0, 2⟩ ⟨10, 0, 2, 2⟩) rfl rfl NetState.boot NetState.boot
  obtain ⟨s', -, hs', -⟩ := hresolve (fun j => if j = 1 then [answer] else []) 1 [] []
    (by decide) rfl (by simp) (by
      intro j hj mac
      obtain rfl | rfl := Nat.le_one_iff_eq_zero_or_eq_one.mp hj <;>
        exact (Option.some_ne_none _).symm)
  exact ⟨_, t', answer, s', ht', hsent, hs'⟩

end Mboot.Net
